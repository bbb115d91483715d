import MarketEngine.Proofs.Evaluation.ExportFiles
import Mathlib.Data.Set.Insert
/-!
# The exports of several symbols

An exporter keeps a header for every symbol, but the files are named after symbols with hyphens for
their slashes. So symbols that share no file name are exported as if each had an exporter of its
own, and symbols that share one are not: some rows of the one end up below the other's header
(`Exporter.isolated_iff`).
-/

namespace MarketEngine

namespace Exporter

variable {α : Type} [Amount α] [Written α]

/-- Saves snapshots of any symbols, one after the other. A save that fails ends the run. -/
def saveAll (archive : Exporter × Folder) (saves : List (Symbol × MatrixSnapshot α)) :
    Except ExportError (Exporter × Folder) :=
  saves.foldlM (fun archive save => archive.1.save archive.2 save.1 save.2) archive

/-- Saves succeed if the first one does, and then the others. -/
theorem saveAll_cons_eq_ok {archive archive' : Exporter × Folder}
    {save : Symbol × MatrixSnapshot α} {rest : List (Symbol × MatrixSnapshot α)} :
    saveAll archive (save :: rest) = .ok archive' ↔
      ∃ next, archive.1.save archive.2 save.1 save.2 = .ok next ∧
        saveAll next rest = .ok archive' := by
  rw [saveAll, List.foldlM_cons]
  cases h : archive.1.save archive.2 save.1 save.2 with
  | error e => simp [bind, Except.bind]
  | ok next => simp [bind, Except.bind, saveAll]

/-- Where a run goes through, all of its files can be written. -/
theorem accepts_of_saveAll {archive archive' : Exporter × Folder}
    {saves : List (Symbol × MatrixSnapshot α)} (h : saveAll archive saves = .ok archive')
    {save : Symbol × MatrixSnapshot α} (hsave : save ∈ saves) :
    archive.2.Accepts (fileName save.1) := by
  induction saves generalizing archive with
  | nil => cases hsave
  | cons first rest ih =>
    obtain ⟨next, hfirst, hrest⟩ := saveAll_cons_eq_ok.1 h
    obtain ⟨haccepts, rfl⟩ := save_eq_ok.1 hfirst
    rcases List.mem_cons.1 hsave with rfl | hsave
    · exact haccepts
    · exact (Folder.accepts_withFile haccepts _ _).1 (ih hrest hsave)

/-! ## The run as one symbol sees it -/

/-- A symbol sees no difference: what is remembered of it is the same, and its file. -/
structure SameFor (symbol : Symbol) (archive archive' : Exporter × Folder) : Prop where
  remembered : archive'.1.headers.get? symbol = archive.1.headers.get? symbol
  file : archive'.2.read? (fileName symbol) = archive.2.read? (fileName symbol)
  accepts : archive'.2.Accepts (fileName symbol) ↔ archive.2.Accepts (fileName symbol)

namespace SameFor

variable {symbol : Symbol} {archive archive' next : Exporter × Folder} {s : MatrixSnapshot α}

theorem refl (symbol : Symbol) (archive : Exporter × Folder) : SameFor symbol archive archive :=
  ⟨rfl, rfl, Iff.rfl⟩

/-- A save of the symbol does the same on both sides. -/
theorem save (h : SameFor symbol archive archive')
    (hsave : archive.1.save archive.2 symbol s = .ok next) :
    ∃ next', archive'.1.save archive'.2 symbol s = .ok next' ∧ SameFor symbol next next' := by
  obtain ⟨haccepts, rfl⟩ := save_eq_ok.1 hsave
  have haccepts' := h.accepts.2 haccepts
  have habove : archive'.1.above archive'.2 symbol s = archive.1.above archive.2 symbol s := by
    rw [above, above, h.remembered, h.file]
  refine ⟨_, save_eq_ok.2 ⟨haccepts', rfl⟩, ⟨?_, ?_, ?_⟩⟩
  · rw [get?_remember, get?_remember, if_pos rfl, if_pos rfl]
  · rw [Folder.read?_withFile haccepts', Folder.read?_withFile haccepts, if_pos rfl, if_pos rfl,
      habove]
  · rw [Folder.accepts_withFile haccepts', Folder.accepts_withFile haccepts, h.accepts]

/-- A save to another file passes the symbol by. -/
theorem other (h : SameFor symbol archive archive') {other : Symbol}
    (hother : fileName other ≠ fileName symbol)
    (hsave : archive.1.save archive.2 other s = .ok next) : SameFor symbol next archive' := by
  obtain ⟨haccepts, rfl⟩ := save_eq_ok.1 hsave
  have hsymbol : symbol ≠ other := fun heq => hother (heq ▸ rfl)
  refine ⟨?_, ?_, ?_⟩
  · rw [get?_remember, if_neg hsymbol, h.remembered]
  · rw [Folder.read?_withFile haccepts, if_neg (Ne.symm hother), h.file]
  · rw [Folder.accepts_withFile haccepts, h.accepts]

end SameFor

/-- Where nobody else writes to a symbol's file, the symbol sees its own saves only. -/
theorem SameFor.saveAll {symbol : Symbol} {archive archive' last : Exporter × Folder}
    (h : SameFor symbol archive archive') {saves : List (Symbol × MatrixSnapshot α)}
    (hown : ∀ save ∈ saves, fileName save.1 = fileName symbol → save.1 = symbol)
    (hrun : Exporter.saveAll archive saves = .ok last) :
    ∃ alone, Exporter.saveAll archive' (saves.filter (·.1 = symbol)) = .ok alone ∧
      SameFor symbol last alone := by
  induction saves generalizing archive archive' with
  | nil =>
    obtain rfl : archive = last := Except.ok.inj hrun
    exact ⟨archive', rfl, h⟩
  | cons save rest ih =>
    obtain ⟨next, hsave, hrest⟩ := saveAll_cons_eq_ok.1 hrun
    have hownRest := fun save hsave => hown save (List.mem_cons_of_mem _ hsave)
    by_cases hsymbol : save.1 = symbol
    · rw [hsymbol] at hsave
      obtain ⟨next', hsave', hnext⟩ := h.save hsave
      obtain ⟨alone, halone, hsame⟩ := ih hnext hownRest hrest
      rw [List.filter_cons_of_pos (by simpa using hsymbol)]
      exact ⟨alone, saveAll_cons_eq_ok.2 ⟨next', by rwa [hsymbol], halone⟩, hsame⟩
    · have hother : fileName save.1 ≠ fileName symbol := fun hname =>
        hsymbol (hown save List.mem_cons_self hname)
      rw [List.filter_cons_of_neg (by simpa using hsymbol)]
      exact ih (h.other hother hsave) hownRest hrest

/-! ## Isolation -/

variable (α) in
/-- However the saves of these symbols are interleaved, each symbol's file ends up as if its own
saves had been made alone. -/
def Isolated (symbols : Set Symbol) : Prop :=
  ∀ (archive last : Exporter × Folder) (saves : List (Symbol × MatrixSnapshot α)),
    (∀ save ∈ saves, save.1 ∈ symbols) → saveAll archive saves = .ok last →
    ∀ symbol ∈ symbols, ∃ alone,
      saveAll archive (saves.filter (·.1 = symbol)) = .ok alone ∧
        last.2.read? (fileName symbol) = alone.2.read? (fileName symbol)

/-- Symbols with files of their own are isolated. -/
theorem isolated_of_distinct {symbols : Set Symbol}
    (h : ∀ a ∈ symbols, ∀ b ∈ symbols, Folder.isFileName (fileName a) = true →
      fileName a = fileName b → a = b) : Isolated α symbols := by
  intro archive last saves hsaves hrun symbol hsymbol
  have hown : ∀ save ∈ saves, fileName save.1 = fileName symbol → save.1 = symbol :=
    fun save hsave hname => h save.1 (hsaves save hsave) symbol hsymbol
      (accepts_of_saveAll hrun hsave).isFileName hname
  obtain ⟨alone, halone, hsame⟩ := (SameFor.refl symbol archive).saveAll hown hrun
  exact ⟨alone, halone, hsame.file.symm⟩

/-! ## Shared files -/

/-- The first snapshot of a symbol starts its file anew. -/
theorem save_of_fresh {e : Exporter} {folder : Folder} {symbol : Symbol}
    (hfresh : e.headers.get? symbol = none) (haccepts : folder.Accepts (fileName symbol))
    (s : MatrixSnapshot α) : e.save folder symbol s = .ok (e.remember symbol s,
      folder.withFile (fileName symbol) (line s.keys ++ line (row s))) := by
  have habove : e.above folder symbol s = line s.keys := by
    rw [above, hfresh, if_neg (by simp)]
  rw [save_eq_ok, habove]
  exact ⟨haccepts, rfl⟩

/-- A snapshot with the keys of the symbol's last one goes below whatever its file holds. -/
theorem save_of_known {e : Exporter} {folder : Folder} {symbol : Symbol} {s : MatrixSnapshot α}
    {content : String} (hknown : e.headers.get? symbol = some s.keys)
    (hfile : folder.read? (fileName symbol) = some content)
    (haccepts : folder.Accepts (fileName symbol)) : e.save folder symbol s = .ok
      (e.remember symbol s, folder.withFile (fileName symbol) (content ++ line (row s))) := by
  have habove : e.above folder symbol s = content := by
    rw [above, hknown, if_pos rfl, hfile, Option.getD_some]
  rw [save_eq_ok, habove]
  exact ⟨haccepts, rfl⟩

/-- Where two symbols share a file, a row of the first one comes below the second one's header, and
the rows before it are gone. -/
theorem exists_mixed {e : Exporter} {folder : Folder} {a b : Symbol} (hne : a ≠ b)
    (hname : fileName b = fileName a) (hfresh : ∀ symbol, e.headers.get? symbol = none)
    (haccepts : folder.Accepts (fileName a)) {s t s' : MatrixSnapshot α}
    (hkeys : s'.keys = s.keys) :
    ∃ last alone, saveAll (e, folder) [(a, s), (b, t), (a, s')] = .ok last ∧
      saveAll (e, folder) [(a, s), (a, s')] = .ok alone ∧
      last.2.read? (fileName a) = some (line t.keys ++ line (row t) ++ line (row s')) ∧
      alone.2.read? (fileName a) = some (line s.keys ++ line (row s) ++ line (row s')) := by
  obtain ⟨e₁, he₁⟩ : ∃ e₁, e₁ = e.remember a s := ⟨_, rfl⟩
  obtain ⟨f₁, hf₁⟩ : ∃ f₁, f₁ = folder.withFile (fileName a) (line s.keys ++ line (row s)) :=
    ⟨_, rfl⟩
  have hfirst := save_of_fresh (hfresh a) haccepts s
  rw [← he₁, ← hf₁] at hfirst
  have haccepts₁ : f₁.Accepts (fileName a) :=
    hf₁ ▸ (Folder.accepts_withFile haccepts _ _).2 haccepts
  have hknown : e₁.headers.get? a = some s'.keys := by
    rw [he₁, get?_remember, if_pos rfl, hkeys]
  have hfresh₁ : e₁.headers.get? b = none := by
    rw [he₁, get?_remember, if_neg hne.symm, hfresh]
  -- alone, the second snapshot goes below the first one
  have halone := save_of_known hknown (by rw [hf₁, Folder.read?_withFile haccepts, if_pos rfl])
    haccepts₁
  -- and otherwise below the one of the other symbol
  have hsecond := save_of_fresh hfresh₁ (hname ▸ haccepts₁) t
  rw [hname] at hsecond
  have haccepts₂ := (Folder.accepts_withFile haccepts₁ (fileName a) (line t.keys ++ line (row t))).2
    haccepts₁
  have hknown₂ : (e₁.remember b t).headers.get? a = some s'.keys := by
    rw [get?_remember, if_neg hne, hknown]
  have hthird := save_of_known hknown₂ (by rw [Folder.read?_withFile haccepts₁, if_pos rfl])
    haccepts₂
  refine ⟨_, _, saveAll_cons_eq_ok.2 ⟨_, hfirst, saveAll_cons_eq_ok.2 ⟨_, hsecond,
    saveAll_cons_eq_ok.2 ⟨_, hthird, rfl⟩⟩⟩, saveAll_cons_eq_ok.2 ⟨_, hfirst,
    saveAll_cons_eq_ok.2 ⟨_, halone, rfl⟩⟩, ?_, ?_⟩
  · rw [Folder.read?_withFile haccepts₂, if_pos rfl]
  · rw [Folder.read?_withFile haccepts₁, if_pos rfl]

/-- Two symbols that share a file are not isolated: after saves of the one, the other and again the
one a row is missing that would be there otherwise. -/
theorem not_isolated {symbols : Set Symbol} {a b : Symbol} (ha : a ∈ symbols) (hb : b ∈ symbols)
    (hvalid : Folder.isFileName (fileName a) = true) (hname : fileName a = fileName b)
    (hne : a ≠ b) : ¬Isolated α symbols := by
  intro hisolated
  have haccepts : ({} : Folder).Accepts (fileName a) := ⟨rfl, hvalid, by simp [Table.get?]⟩
  obtain ⟨last, alone, hrun, halone, hfile, hfileAlone⟩ := exists_mixed (α := α)
    (e := { place := "" }) (t := [⟨.technical, "", none, .pending⟩]) hne hname.symm
    (fun _ => rfl) haccepts (rfl : MatrixSnapshot.keys [] = _)
  obtain ⟨alone', halone', hsame⟩ := hisolated _ _ _ (by simp [ha, hb]) hrun a ha
  rw [List.filter_cons_of_pos (by simp), List.filter_cons_of_neg (by simpa using hne.symm),
    List.filter_cons_of_pos (by simp), List.filter_nil] at halone'
  obtain rfl := Except.ok.inj (halone.symm.trans halone')
  rw [hfile, hfileAlone] at hsame
  revert hsame
  simp only [row, MatrixSnapshot.keys, List.map_cons, List.map_nil, MatrixEntry.key, Note.value?,
    Option.elim_none]
  decide +kernel

/-- Some symbols are exported independently of each other if and only if no two of them share a file
that can be written. -/
theorem isolated_iff (symbols : Set Symbol) : Isolated α symbols ↔
    ∀ a ∈ symbols, ∀ b ∈ symbols, Folder.isFileName (fileName a) = true →
      fileName a = fileName b → a = b := by
  constructor
  · intro hisolated a ha b hb hvalid hname
    by_contra hne
    exact not_isolated ha hb hvalid hname hne hisolated
  · exact isolated_of_distinct

/-- Two symbols with the same file: after a row of the first one, one of the second and again one of
the first, the first row is missing from the file. -/
theorem isolated_fails : ∃ last alone : Exporter × Folder,
    saveAll ({ place := "out" }, {})
      [("BTC/USDT", reading 1), ("BTC-USDT", reading 2), ("BTC/USDT", reading 3)] = .ok last ∧
    saveAll ({ place := "out" }, {}) [("BTC/USDT", reading 1), ("BTC/USDT", reading 3)] =
      .ok alone ∧
    last.2.read? (fileName "BTC/USDT") = some "TA/rsi/1h\n2\n3\n" ∧
    alone.2.read? (fileName "BTC/USDT") = some "TA/rsi/1h\n1\n3\n" ∧
    ¬Isolated ℚ {"BTC/USDT", "BTC-USDT"} := by
  have hname : fileName "BTC-USDT" = fileName "BTC/USDT" := by
    rw [fileName_eq, fileName_eq]
    decide +kernel
  have hvalid : Folder.isFileName (fileName "BTC/USDT") = true := by
    rw [fileName_eq, Folder.isFileName_eq]
    decide +kernel
  have hne : "BTC/USDT" ≠ "BTC-USDT" := by decide
  have hkeys : (reading 3).keys = (reading 1).keys := rfl
  have haccepts : ({} : Folder).Accepts (fileName "BTC/USDT") :=
    ⟨rfl, hvalid, by simp [Table.get?]⟩
  obtain ⟨last, alone, hrun, halone, hfile, hfileAlone⟩ := exists_mixed
    (e := { place := "out" }) (t := reading 2) hne hname (fun _ => rfl) haccepts hkeys
  refine ⟨last, alone, hrun, halone, hfile.trans ?_, hfileAlone.trans ?_,
    not_isolated (Set.mem_insert ..) (Set.mem_insert_of_mem _ rfl) hvalid hname.symm hne⟩
  · decide +kernel
  · decide +kernel

end Exporter

end MarketEngine
