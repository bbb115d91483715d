import MarketEngine.Evaluation.Export
import MarketEngine.Proofs.Exact
import MarketEngine.Proofs.Files
import Mathlib.Data.List.DropRight
import Mathlib.Data.List.Induction
/-!
# What export files hold

An exporter only ever appends a line or starts a file anew, and it remembers no more than the keys
of each symbol's last snapshot. Still the whole file of a symbol is known after each save, whatever
stood in it before (`Exporter.file_after`): a header line with the keys of the last snapshot, and
below it a row for every snapshot since the keys last changed (`Exporter.document`).
-/

namespace MarketEngine

namespace Exporter

variable {α : Type} [Amount α] [Written α]

/-- Character by character, a file is named after its symbol. -/
theorem fileName_eq (symbol : Symbol) : fileName symbol =
    String.ofList (symbol.toList.map fun c => if c = '/' then '-' else c)
      ++ "_evaluations.csv" := by
  rw [fileName, ← String.toList_inj]
  simp

/-! ## One save -/

/-- What stands in the file of a symbol before the row of its next snapshot. -/
def above (e : Exporter) (folder : Folder) (symbol : Symbol) (s : MatrixSnapshot α) : String :=
  if e.headers.get? symbol = some s.keys then (folder.read? (fileName symbol)).getD ""
  else line s.keys

/-- The exporter after it saved a snapshot. -/
def remember (e : Exporter) (symbol : Symbol) (s : MatrixSnapshot α) : Exporter :=
  { e with headers := e.headers.put symbol s.keys }

omit [Amount α] [Written α] in
/-- A save is remembered for its own symbol. -/
theorem get?_remember (e : Exporter) (symbol symbol' : Symbol) (s : MatrixSnapshot α) :
    (e.remember symbol s).headers.get? symbol'
      = if symbol' = symbol then some s.keys else e.headers.get? symbol' := by
  rw [remember, Table.get?_put]
  simp

/-- A save goes through where the file can be written, and adds a row to it. -/
theorem save_eq_ok {e : Exporter} {folder : Folder} {symbol : Symbol} {s : MatrixSnapshot α}
    {archive : Exporter × Folder} : e.save folder symbol s = .ok archive ↔
      folder.Accepts (fileName symbol) ∧ archive = (e.remember symbol s,
        folder.withFile (fileName symbol) (e.above folder symbol s ++ line (row s))) := by
  have hwritten : (if (e.headers.get? symbol == some s.keys) = true then
        folder.append? (fileName symbol) (line (row s))
      else folder.write? (fileName symbol) (line s.keys ++ line (row s)))
      = folder.write? (fileName symbol) (e.above folder symbol s ++ line (row s)) := by
    by_cases hkeys : e.headers.get? symbol = some s.keys <;> simp [above, hkeys, Folder.append?]
  unfold save
  simp only [hwritten]
  cases hwrite : folder.write? (fileName symbol) (e.above folder symbol s ++ line (row s)) with
  | none =>
    refine iff_of_false (by simp) fun ⟨haccepts, _⟩ => ?_
    rw [Folder.write?_eq_some.2 ⟨haccepts, rfl⟩] at hwrite
    cases hwrite
  | some folder' =>
    obtain ⟨haccepts, rfl⟩ := Folder.write?_eq_some.1 hwrite
    simp [haccepts, remember, eq_comm]

/-- Where a file can be written its save goes through, and afterwards the same files can be. -/
theorem exists_save {folder : Folder} {symbol : Symbol} (h : folder.Accepts (fileName symbol))
    (e : Exporter) (s : MatrixSnapshot α) :
    ∃ archive, e.save folder symbol s = .ok archive ∧
      ∀ name, archive.2.Accepts name ↔ folder.Accepts name :=
  ⟨_, save_eq_ok.2 ⟨h, rfl⟩, fun name => Folder.accepts_withFile h name _⟩

/-! ## The documents of a symbol -/

/-- The printed value of a note, or nothing while it is pending. -/
def field : Note α → String
  | .value x => if Amount.isUndefined x then "" else Written.text x
  | .pending => ""

/-- A row has a field for each key. -/
theorem row_eq (s : MatrixSnapshot α) : row s = s.map fun entry => field entry.note := by
  refine List.map_congr_left fun entry _ => ?_
  cases entry.note with
  | pending => rfl
  | value x => by_cases hx : Amount.isUndefined x = true <;> simp [Note.value?, field, hx]

/-- A header line with the keys of the last snapshot, and a row line for each snapshot of the
longest suffix with these keys. -/
def document (snapshots : List (MatrixSnapshot α)) : String :=
  match snapshots.getLast? with
  | none => ""
  | some last =>
    line last.keys ++ String.join ((snapshots.rtakeWhile (·.keys = last.keys)).map
      fun s => line (s.map fun entry => field entry.note))

/-- One snapshot more goes below the rows that stand there if it has the keys of the one before it,
and else below a header of its own. -/
theorem document_concat (snapshots : List (MatrixSnapshot α)) (s : MatrixSnapshot α) :
    document (snapshots ++ [s]) = (if snapshots.getLast?.map MatrixSnapshot.keys = some s.keys then
      document snapshots else line s.keys) ++ line (row s) := by
  have hlast : document (snapshots ++ [s]) = line s.keys ++ (String.join
      ((snapshots.rtakeWhile (·.keys = s.keys)).map
        fun s => line (s.map fun entry => field entry.note)) ++ line (row s)) := by
    rw [document, List.getLast?_concat, row_eq]
    simp [String.join_append, String.join_cons, String.join_nil]
  rw [hlast]
  rcases List.eq_nil_or_concat' snapshots with rfl | ⟨before, previous, rfl⟩
  · simp [String.join_nil]
  · rw [List.getLast?_concat, Option.map_some]
    by_cases hkeys : previous.keys = s.keys
    · rw [if_pos (by rw [hkeys]), document, List.getLast?_concat]
      simp only [hkeys, String.append_assoc]
    · rw [if_neg (by simpa using hkeys), List.rtakeWhile_concat_neg _ _ _ (by simpa using hkeys)]
      simp [String.join_nil]

/-! ## Any number of saves -/

/-- These snapshots of a symbol are saved, one after the other, and lead from the one state of the
exporter and its folder to the other. Meanwhile the exporter may save other symbols to other files,
and anything may be done with the folder that leaves the symbol's file alone. -/
inductive Saves (symbol : Symbol) (start : Exporter × Folder) :
    List (MatrixSnapshot α) → Exporter × Folder → Prop
  | nil : Saves symbol start [] start
  | save {snapshots : List (MatrixSnapshot α)} {e : Exporter} {folder : Folder}
    {s : MatrixSnapshot α} {archive : Exporter × Folder}
    (hbefore : Saves symbol start snapshots (e, folder))
    (hsave : e.save folder symbol s = .ok archive) : Saves symbol start (snapshots ++ [s]) archive
  | other {snapshots : List (MatrixSnapshot α)} {e : Exporter} {folder : Folder} {other : Symbol}
    {s : MatrixSnapshot α} {archive : Exporter × Folder}
    (hbefore : Saves symbol start snapshots (e, folder))
    (hother : fileName other ≠ fileName symbol) (hsave : e.save folder other s = .ok archive) :
    Saves symbol start snapshots archive
  | outside {snapshots : List (MatrixSnapshot α)} {e : Exporter} {folder folder' : Folder}
    (hbefore : Saves symbol start snapshots (e, folder))
    (hfile : folder'.read? (fileName symbol) = folder.read? (fileName symbol)) :
    Saves symbol start snapshots (e, folder')

/-- What is remembered of a symbol is its last snapshot's keys, and what its file holds is the
document of its snapshots. -/
structure Keeps (symbol : Symbol) (snapshots : List (MatrixSnapshot α))
    (archive : Exporter × Folder) : Prop where
  remembered : archive.1.headers.get? symbol = snapshots.getLast?.map MatrixSnapshot.keys
  file : snapshots ≠ [] →
    archive.2.read? (fileName symbol) = some (document snapshots)

namespace Keeps

variable {symbol : Symbol} {snapshots : List (MatrixSnapshot α)} {e : Exporter} {folder : Folder}
  {s : MatrixSnapshot α} {archive : Exporter × Folder}

/-- The next row goes below the document if the keys are the same, and below a new header otherwise.
-/
theorem above_eq (h : Keeps symbol snapshots (e, folder)) (s : MatrixSnapshot α) :
    e.above folder symbol s = if snapshots.getLast?.map MatrixSnapshot.keys = some s.keys then
      document snapshots else line s.keys := by
  rw [above, h.remembered]
  split
  · next hkeys =>
    have hsome : snapshots ≠ [] := by
      rintro rfl
      simp at hkeys
    rw [h.file hsome, Option.getD_some]
  · rfl

/-- One more save leaves the document of one more snapshot. -/
theorem save (h : Keeps symbol snapshots (e, folder))
    (hsave : e.save folder symbol s = .ok archive) :
    Keeps symbol (snapshots ++ [s]) archive := by
  obtain ⟨haccepts, rfl⟩ := save_eq_ok.1 hsave
  refine ⟨?_, fun _ => ?_⟩
  · simp [get?_remember]
  · rw [Folder.read?_withFile haccepts, if_pos rfl, h.above_eq, document_concat]

/-- The save of another symbol to another file leaves this one alone. -/
theorem other (h : Keeps symbol snapshots (e, folder)) {other : Symbol}
    (hother : fileName other ≠ fileName symbol) (hsave : e.save folder other s = .ok archive) :
    Keeps symbol snapshots archive := by
  obtain ⟨haccepts, rfl⟩ := save_eq_ok.1 hsave
  have hsymbol : symbol ≠ other := fun heq => hother (heq ▸ rfl)
  refine ⟨?_, fun hsome => ?_⟩
  · rw [get?_remember, if_neg hsymbol, h.remembered]
  · rw [Folder.read?_withFile haccepts, if_neg (Ne.symm hother), h.file hsome]

end Keeps

/-- After any saves the file holds the document of its symbol's snapshots, if the exporter was
fresh. -/
theorem Saves.keeps {symbol : Symbol} {start archive : Exporter × Folder}
    {snapshots : List (MatrixSnapshot α)} (h : Saves symbol start snapshots archive)
    (hfresh : start.1.headers.get? symbol = none) : Keeps symbol snapshots archive := by
  induction h with
  | nil => exact ⟨hfresh, fun hsome => absurd rfl hsome⟩
  | save _ hsave ih => exact ih.save hsave
  | other _ hother hsave ih => exact ih.other hother hsave
  | outside _ hfile ih => exact ⟨ih.remembered, fun hsome => hfile.trans (ih.file hsome)⟩

/-- Any snapshots can be saved where the file can be written. -/
theorem exists_saves {symbol : Symbol} {start : Exporter × Folder}
    (h : start.2.Accepts (fileName symbol)) (snapshots : List (MatrixSnapshot α)) :
    ∃ archive, Saves symbol start snapshots archive ∧
      ∀ name, archive.2.Accepts name ↔ start.2.Accepts name := by
  induction snapshots using List.reverseRecOn with
  | nil => exact ⟨start, .nil, fun _ => Iff.rfl⟩
  | append_singleton snapshots s ih =>
    obtain ⟨⟨e, folder⟩, hsaves, haccepts⟩ := ih
    obtain ⟨archive, hsave, haccepts'⟩ := exists_save ((haccepts _).2 h) e s
    exact ⟨archive, hsaves.save hsave, fun name => (haccepts' name).trans (haccepts name)⟩

/-- Whatever a symbol's file held when an exporter that had not saved the symbol yet began with it,
after each save it is exactly the document of the snapshots saved so far: the keys of the last one
as a header, and a row with the printed values for each snapshot of the longest suffix with these
keys. -/
theorem file_after {symbol : Symbol} {start : Exporter × Folder}
    (hfresh : start.1.headers.get? symbol = none) {snapshots : List (MatrixSnapshot α)}
    {archive : Exporter × Folder} (h : Saves symbol start snapshots archive)
    (hsome : snapshots ≠ []) :
    archive.2.read? (fileName symbol) = some (document snapshots) :=
  (h.keeps hfresh).file hsome

/-- The note of one evaluator. -/
def reading (x : ℚ) : MatrixSnapshot ℚ := [⟨.technical, "rsi", some .oneHour, .value x⟩]

/-- The note of one evaluator, and a second one that is pending. -/
def readingWithNews (x : ℚ) : MatrixSnapshot ℚ := reading x ++ [⟨.social, "news", none, .pending⟩]

/-- A folder in which a file of an earlier run was left. -/
def leftovers : Folder := { nodes := [("BTC-USDT_evaluations.csv", .text "OLD/header\n0.1\n")] }

/-- What an earlier run left is no obstacle to writing a file. -/
theorem accepts_leftovers (symbol : Symbol) (h : Folder.isFileName (fileName symbol) = true) :
    leftovers.Accepts (fileName symbol) where
  exists_folder := rfl
  isFileName := h
  not_folder := by
    unfold leftovers Table.get?
    rw [List.lookup_cons]
    split <;> simp

/-- The keys change and change back, and another symbol is saved meanwhile. -/
theorem file_after_leftovers :
    ∃ archive, Saves "BTC/USDT" ({ place := "out" }, leftovers)
        [reading 1, readingWithNews 2, reading 3, reading (-1)] archive ∧
      archive.2.read? "BTC-USDT_evaluations.csv" = some "TA/rsi/1h\n3\n-1\n" := by
  have hbtc : fileName "BTC/USDT" = "BTC-USDT_evaluations.csv" := by
    rw [fileName_eq]
    decide +kernel
  have hether : fileName "ETH/USDT" = "ETH-USDT_evaluations.csv" := by
    rw [fileName_eq]
    decide +kernel
  have haccepts : leftovers.Accepts (fileName "BTC/USDT") := by
    refine accepts_leftovers _ ?_
    rw [hbtc, Folder.isFileName_eq]
    decide +kernel
  obtain ⟨⟨e, folder⟩, hsaves, hsame⟩ : ∃ archive, Saves "BTC/USDT"
      ({ place := "out" }, leftovers) [reading 1, readingWithNews 2, reading 3] archive ∧
      ∀ name, archive.2.Accepts name ↔ leftovers.Accepts name := exists_saves haccepts _
  have heth : folder.Accepts (fileName "ETH/USDT") := by
    refine (hsame _).2 (accepts_leftovers _ ?_)
    rw [hether, Folder.isFileName_eq]
    decide +kernel
  obtain ⟨⟨e', folder'⟩, hother, hsame'⟩ := exists_save heth e (reading 7)
  have hmeanwhile := hsaves.other (by rw [hbtc, hether]; decide) hother
  obtain ⟨archive, hsave, -⟩ := exists_save ((hsame' _).2 ((hsame _).2 haccepts)) e' (reading (-1))
  have hall := hmeanwhile.save hsave
  refine ⟨archive, hall, ?_⟩
  rw [← hbtc, file_after rfl hall (by simp)]
  decide +kernel

end Exporter

end MarketEngine
