import MarketEngine.Proofs.Decimal.FiniteNumbers
import MarketEngine.Proofs.Files
import MarketEngine.Proofs.Settings.OlderFiles
/-!
# Settings and their own file

A file that settings were saved to loads as the same settings if all their amounts are finite. An
amount that is not stands in the file as `null`, and then the file does not load, although the
settings were accepted and saved (`Settings.survives_iff`).
-/

namespace MarketEngine.Settings

open Json

variable {α : Type} [JsonAmount α]

/-- Settings as the process can hold them: sizes of 64 bits, one of 32 bits, and distinct
currencies. -/
structure Sized (s : Settings α) : Prop where
  size : ∀ n ∈ [s.queueSize, s.mostCandles, s.mostTrades, s.mostOrders, s.matchWindow,
    s.candleLimit, s.longestSleepSecs, s.ordersPeriodSecs, s.tickerPeriodSecs, s.bookPeriodSecs,
    s.tradesPeriodSecs, s.balancePeriodSecs], n < Nat.pow 2 64
  filterSize : s.tradeFilterSize < Nat.pow 2 32
  currencies : s.startingBalances.keys.Nodup

/-- The amounts in the settings. -/
def amounts (s : Settings α) : List α :=
  s.makerFee :: s.takerFee :: s.startingBalances.map (·.2)

/-- Settings that the process can hold are writable if their amounts read back. -/
theorem Sized.writable {s : Settings α} (hs : s.Sized) (hamounts : ∀ x ∈ s.amounts, ReadsBack x) :
    s.Writable := by
  obtain ⟨hmaker, htaker, hbalances⟩ : _ ∧ _ ∧ _ := by simpa [amounts] using hamounts
  exact ⟨hs.size, hs.filterSize, hmaker, htaker, hs.currencies, fun b hb => hbalances _ _ hb⟩

/-! ## What is read from what was written -/

/-- What settings are written as is a record of their fields. -/
theorem exists_record?_toJson (s : Settings α) : ∃ r, record? fieldNames s.toJson = some r ∧
    r.Keeps s.toJson.entries fun _ => true := by
  have hfields : s.toJson.entries.Perm (s.toJson.entries.filter (fun _ => true) ++ []) := by simp
  have hrecord := record?_of_perm (fun _ => true) (by rw [names_toJson]; decide)
    (List.forall_mem_nil _) hfields
  rwa [names_toJson, ← toJson_eq] at hrecord

variable [DefaultAmounts α]

/-- Writable settings are read back. -/
theorem ofJson?_toJson {s : Settings α} (hs : s.Writable) : ofJson? s.toJson = some s := by
  have hread : ofJson? (Json.record s.toJson.entries) = some (s.keeping fun _ => true) :=
    ofJson?_of_perm hs _ (List.forall_mem_nil _) (by simp)
  rwa [← toJson_eq] at hread

variable [Amount α] [LawfulJsonAmount α]

omit [DefaultAmounts α] in
/-- Balances that were read back are finite. -/
theorem isFinite_of_balances? {balances read : Table Currency α}
    (h : balances? (balancesToJson balances) = some read) :
    ∀ b ∈ balances, Amount.isFinite b.2 = true := by
  simp only [balances?, balancesToJson, Json.record, Option.bind_eq_bind, Option.bind_eq_some_iff,
    List.map_map, mapM_eq_some, List.forall₂_map_left_iff] at h
  obtain ⟨entries, hentries, -⟩ := h
  have hfinite : List.Forall₂ (fun b _ => Amount.isFinite b.2 = true ∧ True) balances entries := by
    refine hentries.imp fun b _ hentry => ?_
    obtain ⟨_, _, _, hamount, _⟩ := hentry
    exact ⟨isFinite_of_amount?_ofAmount hamount, trivial⟩
  exact ((List.forall₂_and_left _ _).1 hfinite).1

/-- Settings that are read back from what they are written as have finite amounts. -/
theorem isFinite_of_ofJson?_toJson {s read : Settings α} (h : ofJson? s.toJson = some read) :
    ∀ x ∈ s.amounts, Amount.isFinite x = true := by
  obtain ⟨r, hrecord, hr⟩ := s.exists_record?_toJson
  have hgiven {name : String} {j : Json} (hown : s.toJson.entries.lookup name = some j) :
      r.fields.lookup name = some j := by
    rw [hr, if_pos rfl, hown]
  unfold ofJson? at h
  rw [hrecord, Option.bind_eq_bind, Option.bind_some] at h
  iterate 19 obtain ⟨_, -, h⟩ := Option.bind_eq_some_iff.1 h
  obtain ⟨makerFee, hmaker, h⟩ := Option.bind_eq_some_iff.1 h
  obtain ⟨takerFee, htaker, h⟩ := Option.bind_eq_some_iff.1 h
  obtain ⟨balances, hbalances, -⟩ := Option.bind_eq_some_iff.1 h
  rw [amounts, List.forall_mem_cons, List.forall_mem_cons, List.forall_mem_map]
  rw [Record.withDefault, hgiven (j := ofAmount s.makerFee) rfl] at hmaker
  rw [Record.withDefault, hgiven (j := ofAmount s.takerFee) rfl] at htaker
  rw [Record.withDefault, hgiven (j := balancesToJson s.startingBalances) rfl] at hbalances
  exact ⟨isFinite_of_amount?_ofAmount hmaker, isFinite_of_amount?_ofAmount htaker,
    isFinite_of_balances? hbalances⟩

/-! ## Saved files -/

omit [DefaultAmounts α] [Amount α] [LawfulJsonAmount α] in
/-- Settings are saved by a write to a temporary file that is moved to its place. -/
theorem save_eq_ok {s : Settings α} {d d' : Disk} {path : String} : s.save d path = .ok d' ↔
    ∃ written, d.write? (temporaryPath path) s.fileText = some written ∧
      written.rename? (temporaryPath path) path = some d' := by
  unfold save
  generalize s.fileText = text
  cases hwrite : d.write? (temporaryPath path) text with
  | none => simp
  | some written => cases hrename : written.rename? (temporaryPath path) path <;> simp [hrename]

omit [DefaultAmounts α] [Amount α] [LawfulJsonAmount α] in
/-- After a save the file holds the text of the settings. -/
theorem read?_save {s : Settings α} {d d' : Disk} {path : String} (h : s.save d path = .ok d') :
    d'.read? path = some s.fileText := by
  obtain ⟨written, hwrite, hrename⟩ := save_eq_ok.1 h
  rw [Disk.read?_rename? hrename, Disk.read?_write? hwrite]

omit [DefaultAmounts α] [Amount α] [LawfulJsonAmount α] in
/-- A save goes through where the file and the temporary one can be written. -/
theorem exists_save (s : Settings α) {d : Disk} {path : String}
    (htemporary : d.Accepts (temporaryPath path)) (hfile : d.Accepts path) :
    ∃ d', s.save d path = .ok d' := by
  obtain ⟨written, hwrite⟩ := Disk.exists_write? htemporary s.fileText
  obtain ⟨moved, hmove⟩ := Disk.exists_write? (hfile.write? hwrite) s.fileText
  exact ⟨_, save_eq_ok.2 ⟨written, hwrite,
    Disk.rename?_eq_some.2 ⟨_, moved, Disk.read?_write? hwrite, hmove, rfl⟩⟩⟩

omit [Amount α] [LawfulJsonAmount α] in
/-- A saved file loads as what is read from the settings as they were written. -/
theorem load_save {s : Settings α} {d d' : Disk} {path : String} (h : s.save d path = .ok d') :
    load d' path = match (ofJson? s.toJson : Option (Settings α)) with
      | none => .error (.malformed path)
      | some read => .ok read := by
  have hparse : (Json.parse? s.fileText).bind (ofJson? (α := α)) = ofJson? s.toJson := by
    rw [fileText, parse?_render, Option.bind_some]
  cases hread : (ofJson? s.toJson : Option (Settings α)) with
  | none => simp only [load, read?_save h, hparse, hread]
  | some read => simp only [load, read?_save h, hparse, hread]

omit [LawfulJsonAmount α] in
/-- Settings with finite amounts load as they were saved. -/
theorem load_save_of_finite {s : Settings α} (hs : s.Sized)
    (hreads : ∀ x ∈ s.amounts, Amount.isFinite x = true → ReadsBack x)
    (hfinite : ∀ x ∈ s.amounts, Amount.isFinite x = true) {d d' : Disk} {path : String}
    (h : s.save d path = .ok d') : load d' path = .ok s := by
  rw [load_save h, ofJson?_toJson (hs.writable fun x hx => hreads x hx (hfinite x hx))]

/-- Settings with an amount that is not finite do not load. -/
theorem load_save_of_not_finite {s : Settings α} {x : α} (hx : x ∈ s.amounts)
    (hfinite : Amount.isFinite x = false) {d d' : Disk} {path : String}
    (h : s.save d path = .ok d') :
    load (α := α) d' path = .error (.malformed path) := by
  rw [load_save h]
  cases hread : (ofJson? s.toJson : Option (Settings α)) with
  | none => rfl
  | some read =>
    rw [isFinite_of_ofJson?_toJson hread x hx] at hfinite
    cases hfinite

/-- Of settings that are accepted and saved to a file, exactly those survive whose amounts are all
finite: the file then loads as the same settings, which are accepted again. All others leave a file
that does not load. -/
theorem survives_iff {s : Settings α} (hs : s.Sized) (hvalid : s.validate = .ok ())
    (hreads : ∀ x ∈ s.amounts, Amount.isFinite x = true → ReadsBack x) {d d' : Disk} {path : String}
    (hsave : s.save d path = .ok d') :
    ((∃ s', load d' path = .ok s' ∧ s' = s ∧ s'.validate = .ok ()) ↔
      ∀ x ∈ s.amounts, Amount.isFinite x = true) ∧
    ((∃ x ∈ s.amounts, Amount.isFinite x = false) →
      load (α := α) d' path = .error (.malformed path)) := by
  have hlost : (∃ x ∈ s.amounts, Amount.isFinite x = false) →
      load (α := α) d' path = .error (.malformed path) :=
    fun ⟨x, hx, hfinite⟩ => load_save_of_not_finite hx hfinite hsave
  refine ⟨⟨fun ⟨s', hload, _⟩ x hx => ?_, fun hfinite => ?_⟩, hlost⟩
  · by_contra hfinite
    rw [hlost ⟨x, hx, by simpa using hfinite⟩] at hload
    cases hload
  · exact ⟨s, load_save_of_finite hs hreads hfinite hsave, rfl, hvalid⟩

omit [DefaultAmounts α] [Amount α] [LawfulJsonAmount α] [JsonAmount α] in
/-- In an empty working folder a file can be written. -/
theorem accepts_work {path name : String}
    (hplace : (Disk.around "work" {}).place? path = some (0, name))
    (hname : Folder.isFileName name = true) : (Disk.around "work" {}).Accepts path :=
  ⟨0, name, {}, hplace, rfl, rfl, hname, by simp [Table.get?]⟩

/-- In an empty working folder settings can be saved. -/
theorem exists_save_work (s : Settings Float) :
    ∃ d', s.save (Disk.around "work" {}) "work/engine.json" = .ok d' := by
  have htemporary : (Disk.around "work" {}).place? (temporaryPath "work/engine.json")
      = some (0, "engine.json.tmp") := by decide +kernel
  have hfile : (Disk.around "work" {}).place? "work/engine.json" = some (0, "engine.json") := by
    decide +kernel
  have hname : ∀ name ∈ ["engine.json.tmp", "engine.json"], Folder.isFileName name = true := by
    simp only [Folder.isFileName_eq]
    decide +kernel
  exact s.exists_save (accepts_work htemporary (hname _ (by simp)))
    (accepts_work hfile (hname _ (by simp)))

/-- Settings with fees and balances of their own: they load as they were saved. -/
theorem survives_iff_kraken :
    let s : Settings Float := { standard with
      exchangeName := "kraken", makerFee := 0.0005
      startingBalances := [("USDT", 250.5), ("BTC", 1.5)] }
    ∃ d', s.save (Disk.around "work" {}) "work/engine.json" = .ok d' ∧
      load d' "work/engine.json" = .ok s := by
  intro s
  have hs : s.Sized := ⟨by decide, by decide, by decide⟩
  have hfault : s.fault? = none := by decide +kernel
  have hvalid : s.validate = .ok () := by rw [validate, hfault]
  have hreads : ∀ x ∈ s.amounts, Amount.isFinite x = true → ReadsBack x := by decide +kernel
  have hfinite : ∀ x ∈ s.amounts, Amount.isFinite x = true := by decide +kernel
  obtain ⟨d', hsave⟩ := exists_save_work s
  obtain ⟨_, hload, rfl, -⟩ := (survives_iff hs hvalid hreads hsave).1.2 hfinite
  exact ⟨d', hsave, hload⟩

/-- Settings with an infinite fee: they are accepted and saved, and their file does not load. -/
theorem saved_not_loaded :
    let s : Settings Float := { standard with takerFee := 1 / 0 }
    s.validate = .ok () ∧ ∃ d', s.save (Disk.around "work" {}) "work/engine.json" = .ok d' ∧
      load (α := Float) d' "work/engine.json" = .error (.malformed "work/engine.json") := by
  intro s
  obtain ⟨d', hsave⟩ := exists_save_work s
  have hfee : s.takerFee ∈ s.amounts := by simp [amounts]
  have hinfinite : Amount.isFinite s.takerFee = false := by decide +kernel
  have hfault : s.fault? = none := by decide +kernel
  exact ⟨by rw [validate, hfault], d', hsave, load_save_of_not_finite hfee hinfinite hsave⟩

end MarketEngine.Settings
