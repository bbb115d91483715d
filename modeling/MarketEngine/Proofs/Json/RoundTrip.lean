import MarketEngine.Json.Reader
import MarketEngine.Json.Writer
import MarketEngine.Proofs.Decimal.NumeralText
import Mathlib.Data.List.DropRight
/-!
# Written values read back

The text of a value, in either style, is read back as that value (`Json.parse?_render`). The proof
follows the writer: a value, the items of an array and the fields of an object are read from the
front of a text, whatever follows them (`Json.readValue?_write`), where only a numeral has to know
that it does not go on. The steps that the reader has are twice the characters there are, one for an
item or a field and one for the value in it.
-/

namespace MarketEngine.Json

open Decimal

/-! ## Texts -/

/-- The digits of an escaped control character are read back as its code. -/
theorem hexFour?_writeHexDigit : ∀ n < 0x20,
    hexFour? '0' '0' (writeHexDigit (n / 16)) (writeHexDigit n) = some n := by
  decide

/-- A character that needs no escape stands for itself. -/
theorem readUnits?_cons {c : Char} (hquote : c ≠ '"') (hbackslash : c ≠ '\\')
    (hcontrol : ¬ c.toNat < 0x20) (rest : List Char) :
    readUnits? (c :: rest) = (readUnits? rest).map fun r => (.whole c :: r.1, r.2) := by
  rw [readUnits?, if_neg hcontrol]
  · cases readUnits? rest <;> rfl
  · exact hquote
  · exact fun _ _ _ _ _ h _ => hbackslash h
  · exact fun _ _ h _ => hbackslash h

/-- Whether it was escaped or not, a written character is read as that character. -/
theorem readUnits?_writeChar (c : Char) (rest : List Char) :
    readUnits? (writeChar c ++ rest) = (readUnits? rest).map fun r => (.whole c :: r.1, r.2) := by
  unfold writeChar
  split
  case h_8 hquote hbackslash _ _ _ _ _ =>
    split
    · next hcontrol =>
      have hunit : unitOfCode c.toNat = .whole c := by
        rw [unitOfCode, if_neg (by omega), Char.ofNat_toNat]
      cases hrest : readUnits? rest <;>
        simp [readUnits?, hexFour?_writeHexDigit c.toNat hcontrol, hunit, hrest]
    · next hcontrol => exact readUnits?_cons hquote hbackslash hcontrol rest
  all_goals cases hrest : readUnits? rest <;> simp [readUnits?, shortEscape?, hrest]

/-- The characters of a text are read one after the other, up to the closing quote. -/
theorem readUnits?_flatMap_writeChar (cs rest : List Char) :
    readUnits? (cs.flatMap writeChar ++ '"' :: rest) = some (cs.map .whole, rest) := by
  induction cs with
  | nil => simp [readUnits?]
  | cons c cs ih =>
    rw [List.flatMap_cons, List.append_assoc, readUnits?_writeChar, ih, Option.map_some,
      List.map_cons]

/-- Whole characters need no joining. -/
theorem joinUnits?_map_whole (cs : List Char) : joinUnits? (cs.map .whole) = some cs := by
  induction cs with
  | nil => rfl
  | cons c cs ih => simp [joinUnits?, ih]

/-- What is written of a text after its opening quote. -/
def textBody : Option String → List Char
  | some s => s.toList.flatMap writeChar ++ ['"']
  | none => ['\\', 'u', 'd', '8', '0', '0', '"']

/-- A text is written with its opening quote in front. -/
theorem writeText_eq (s : Option String) : writeText s = '"' :: textBody s := by
  cases s <;> rfl

/-- What is written of a text after its opening quote is read back as that text, whatever follows.
-/
theorem readText?_textBody (s : Option String) (rest : List Char) :
    readText? (textBody s ++ rest) = some (s, rest) := by
  cases s with
  | none => rfl
  | some s =>
    simp [readText?, textBody, readUnits?_flatMap_writeChar, joinUnits?_map_whole]

/-! ## Blanks -/

/-- Nothing is skipped in front of a character that is no blank. -/
theorem skipBlanks_cons {c : Char} (h : isBlank c = false) (cs : List Char) :
    skipBlanks (c :: cs) = c :: cs := by
  simp [skipBlanks, h]

/-- After skipping blanks there is none to skip. -/
@[simp]
theorem skipBlanks_skipBlanks (cs : List Char) : skipBlanks (skipBlanks cs) = skipBlanks cs :=
  List.dropWhile_idempotent isBlank cs

/-- Any number of blanks in front is skipped. -/
theorem skipBlanks_append {blanks : List Char} (h : ∀ c ∈ blanks, isBlank c = true)
    (cs : List Char) : skipBlanks (blanks ++ cs) = skipBlanks cs := by
  induction blanks with
  | nil => rfl
  | cons c blanks ih =>
    have hc := h c List.mem_cons_self
    simpa [skipBlanks, hc] using ih fun c' hc' => h c' (List.mem_cons_of_mem c hc')

/-- The space between lines, in either style, is nothing but blanks. -/
theorem skipBlanks_newline (style : Style) (depth : Nat) (cs : List Char) :
    skipBlanks (style.newline depth ++ cs) = skipBlanks cs := by
  refine skipBlanks_append (fun c hc => ?_) cs
  cases style with
  | compact => simp [Style.newline] at hc
  | indented =>
    rcases List.mem_cons.1 hc with rfl | hc
    · rfl
    · rw [List.eq_of_mem_replicate hc]
      rfl

/-- Blanks in front of a value make no difference. -/
theorem readValue?_congr {cs cs' : List Char} (h : skipBlanks cs = skipBlanks cs') (fuel : Nat) :
    readValue? fuel cs = readValue? fuel cs' := by
  cases fuel with
  | zero => rfl
  | succ fuel => simp only [readValue?, h]

/-- Blanks in front of the first item make no difference. -/
theorem readItems?_congr {cs cs' : List Char} (h : skipBlanks cs = skipBlanks cs') (fuel : Nat) :
    readItems? fuel cs = readItems? fuel cs' := by
  cases fuel with
  | zero => rfl
  | succ fuel => simp only [readItems?, readValue?_congr h]

/-- Blanks in front of the first field make no difference. -/
theorem readFields?_congr {cs cs' : List Char} (h : skipBlanks cs = skipBlanks cs') (fuel : Nat) :
    readFields? fuel cs = readFields? fuel cs' := by
  cases fuel with
  | zero => rfl
  | succ fuel => simp only [readFields?, h]

/-! ## The first character -/

/-- A text that a value can be read from: it starts with no blank and with no closing bracket. -/
def OpensValue (cs : List Char) : Prop :=
  ∃ c rest, cs = c :: rest ∧ isBlank c = false ∧ c ≠ ']' ∧ c ≠ '}'

/-- There is nothing to skip where a value starts. -/
theorem OpensValue.skipBlanks {cs : List Char} (h : OpensValue cs) : skipBlanks cs = cs := by
  obtain ⟨c, rest, rfl, hblank, -⟩ := h
  exact skipBlanks_cons hblank rest

/-- What a numeral starts with starts no other value. -/
theorem startsNumeral_spec {c : Char} (h : c = '-' ∨ ∃ d, c = writeDigit d) :
    isBlank c = false ∧ c ≠ 'n' ∧ c ≠ 't' ∧ c ≠ 'f' ∧ c ≠ '"' ∧ c ≠ '[' ∧ c ≠ '{' ∧ c ≠ ']'
      ∧ c ≠ '}' := by
  rcases h with rfl | ⟨d, rfl⟩
  · decide
  · revert d
    decide

/-- Every value is written so that it starts with a character of its own. -/
theorem opensValue_write (style : Style) (depth : Nat) (j : Json) (rest : List Char) :
    OpensValue (j.write style depth ++ rest) := by
  match j with
  | null => exact ⟨'n', _, rfl, by decide⟩
  | bool true => exact ⟨'t', _, rfl, by decide⟩
  | bool false => exact ⟨'f', _, rfl, by decide⟩
  | number n =>
    obtain ⟨c, tail, htail, hc⟩ := n.exists_write_eq_cons
    obtain ⟨hblank, -, -, -, -, -, -, hitems, hfields⟩ := startsNumeral_spec hc
    exact ⟨c, tail ++ rest, by rw [write, htail, List.cons_append], hblank, hitems, hfields⟩
  | text s =>
    exact ⟨'"', textBody s ++ rest, by rw [write, writeText_eq, List.cons_append], by decide⟩
  | array [] => exact ⟨'[', _, rfl, by decide⟩
  | array (item :: items) => exact ⟨'[', _, by rw [write]; rfl, by decide⟩
  | object [] => exact ⟨'{', _, rfl, by decide⟩
  | object (field :: fields) => exact ⟨'{', _, by rw [write]; rfl, by decide⟩

/-! ## Reader steps -/

/-- A character that a numeral starts with leads the reader to numerals. -/
theorem readValue?_number {c : Char} (h : c = '-' ∨ ∃ d, c = writeDigit d) (fuel : Nat)
    (cs : List Char) :
    readValue? (fuel + 1) (c :: cs)
      = (Numeral.read? (c :: cs)).map fun r => (number r.1, r.2) := by
  obtain ⟨hblank, hnull, htrue, hfalse, htext, harray, hobject, -⟩ := startsNumeral_spec h
  simp [readValue?, skipBlanks_cons, hblank, hnull, htrue, hfalse, htext, harray, hobject]

/-- After a quote, the reader goes on as for a text. -/
theorem readValue?_text {cs rest : List Char} {s : Option String}
    (h : readText? cs = some (s, rest)) (fuel : Nat) :
    readValue? (fuel + 1) ('"' :: cs) = some (text s, rest) := by
  simp [readValue?, skipBlanks_cons, isBlank, h]

/-- After an opening bracket, the reader goes on with the items unless the array closes at once. -/
theorem readValue?_array {cs rest : List Char} {items : List Json} {fuel : Nat}
    (hopens : OpensValue (skipBlanks cs)) (h : readItems? fuel cs = some (items, rest)) :
    readValue? (fuel + 1) ('[' :: cs) = some (array items, rest) := by
  rw [← readItems?_congr (skipBlanks_skipBlanks cs)] at h
  obtain ⟨c, tail, hcs, -, hclose, -⟩ := hopens
  rw [hcs] at h
  simp [readValue?, skipBlanks_cons, isBlank, hcs, hclose, h]

/-- After an opening brace, the reader goes on with the fields unless the object closes at once. -/
theorem readValue?_object {cs rest : List Char} {fields : List (Option String × Json)} {fuel : Nat}
    (hopens : OpensValue (skipBlanks cs)) (h : readFields? fuel cs = some (fields, rest)) :
    readValue? (fuel + 1) ('{' :: cs) = some (object fields, rest) := by
  rw [← readFields?_congr (skipBlanks_skipBlanks cs)] at h
  obtain ⟨c, tail, hcs, -, -, hclose⟩ := hopens
  rw [hcs] at h
  simp [readValue?, skipBlanks_cons, isBlank, hcs, hclose, h]

/-- The last item is the one that the closing bracket follows. -/
theorem readItems?_last {cs cs' rest : List Char} {item : Json} {fuel : Nat}
    (hitem : readValue? fuel cs = some (item, cs')) (hclose : skipBlanks cs' = ']' :: rest) :
    readItems? (fuel + 1) cs = some ([item], rest) := by
  simp [readItems?, hitem, hclose]

/-- After a comma the other items follow. -/
theorem readItems?_cons {cs cs' cs'' rest : List Char} {item : Json} {items : List Json}
    {fuel : Nat} (hitem : readValue? fuel cs = some (item, cs'))
    (hcomma : skipBlanks cs' = ',' :: cs'') (hitems : readItems? fuel cs'' = some (items, rest)) :
    readItems? (fuel + 1) cs = some (item :: items, rest) := by
  simp [readItems?, hitem, hcomma, hitems]

/-- The last field is the one that the closing brace follows. -/
theorem readFields?_last {cs cs' rest : List Char} {value : Json} {fuel : Nat}
    (name : Option String) (hvalue : readValue? fuel cs = some (value, cs'))
    (hclose : skipBlanks cs' = '}' :: rest) :
    readFields? (fuel + 1) ('"' :: (textBody name ++ ':' :: cs))
      = some ([(name, value)], rest) := by
  simp [readFields?, skipBlanks_cons, isBlank, readText?_textBody, hvalue, hclose]

/-- After a comma the other fields follow. -/
theorem readFields?_cons {cs cs' cs'' rest : List Char} {value : Json}
    {fields : List (Option String × Json)} {fuel : Nat} (name : Option String)
    (hvalue : readValue? fuel cs = some (value, cs')) (hcomma : skipBlanks cs' = ',' :: cs'')
    (hfields : readFields? fuel cs'' = some (fields, rest)) :
    readFields? (fuel + 1) ('"' :: (textBody name ++ ':' :: cs))
      = some ((name, value) :: fields, rest) := by
  simp [readFields?, skipBlanks_cons, isBlank, readText?_textBody, hvalue, hcomma, hfields]

/-! ## What follows a value -/

/-- A number cannot go on over the end of a line or into a closing bracket. -/
theorem endsNumeral_newline (style : Style) (depth : Nat) {c : Char} (rest : List Char)
    (h : c = ']' ∨ c = '}') : EndsNumeral (style.newline depth ++ c :: rest) := by
  cases style with
  | indented => exact endsNumeral_cons _ (by decide) (by decide) (by decide) (by decide)
  | compact =>
    rcases h with rfl | rfl <;>
      exact endsNumeral_cons _ (by decide) (by decide) (by decide) (by decide)

/-- A number ends before a comma. -/
theorem endsNumeral_comma (rest : List Char) : EndsNumeral (',' :: rest) :=
  endsNumeral_cons _ (by decide) (by decide) (by decide) (by decide)

/-- The text of a field from its name to its value. -/
theorem writeText_colon (style : Style) (name : Option String) (cs : List Char) :
    ∃ cs', writeText name ++ (style.colon ++ cs) = '"' :: (textBody name ++ ':' :: cs') ∧
      skipBlanks cs' = skipBlanks cs := by
  rw [writeText_eq]
  cases style with
  | compact => exact ⟨cs, rfl, rfl⟩
  | indented => exact ⟨' ' :: cs, rfl, rfl⟩

/-- Every value is written with at least one character, so reading it makes progress. -/
theorem length_write_pos (style : Style) (depth : Nat) (j : Json) :
    0 < (j.write style depth).length := by
  obtain ⟨c, rest, h, -⟩ := opensValue_write style depth j []
  rw [List.append_nil] at h
  rw [h, List.length_cons]
  omega

/-! ## Items and fields

The writer sets out the last item or field without a comma, so it tells lists of one entry from
longer ones. -/

/-- A single item stands on a line of its own. -/
theorem writeItems_singleton (style : Style) (depth : Nat) (item : Json) :
    writeItems style depth [item] = style.newline depth ++ item.write style depth := by
  rw [writeItems]

/-- Of several items, the first one is followed by a comma. -/
theorem writeItems_cons_cons (style : Style) (depth : Nat) (item item' : Json)
    (items : List Json) :
    writeItems style depth (item :: item' :: items) = style.newline depth
      ++ (item.write style depth ++ ',' :: writeItems style depth (item' :: items)) := by
  simp [writeItems]

/-- A single field stands on a line of its own. -/
theorem writeFields_singleton (style : Style) (depth : Nat) (name : Option String)
    (value : Json) :
    writeFields style depth [(name, value)] = style.newline depth
      ++ (writeText name ++ (style.colon ++ value.write style depth)) := by
  simp [writeFields]

/-- Of several fields, the first one is followed by a comma. -/
theorem writeFields_cons_cons (style : Style) (depth : Nat) (name : Option String) (value : Json)
    (field : Option String × Json) (fields : List (Option String × Json)) :
    writeFields style depth ((name, value) :: field :: fields) = style.newline depth
      ++ (writeText name ++ (style.colon ++ (value.write style depth
        ++ ',' :: writeFields style depth (field :: fields)))) := by
  simp [writeFields]

/-- Behind the blanks, items start with a value. -/
theorem opensValue_writeItems (style : Style) (depth : Nat) (item : Json) (items : List Json)
    (cs : List Char) : OpensValue (skipBlanks (writeItems style depth (item :: items) ++ cs)) := by
  cases items with
  | nil =>
    have hopens := opensValue_write style depth item cs
    rwa [writeItems_singleton, List.append_assoc, skipBlanks_newline, hopens.skipBlanks]
  | cons item' items =>
    have hopens := opensValue_write style depth item
      (',' :: writeItems style depth (item' :: items) ++ cs)
    rwa [writeItems_cons_cons, List.append_assoc, List.append_assoc, skipBlanks_newline,
      hopens.skipBlanks]

/-- Behind the blanks, fields start with a name, which looks like a value. -/
theorem opensValue_writeFields (style : Style) (depth : Nat) (field : Option String × Json)
    (fields : List (Option String × Json)) (cs : List Char) :
    OpensValue (skipBlanks (writeFields style depth (field :: fields) ++ cs)) := by
  obtain ⟨name, value⟩ := field
  have hopens (cs : List Char) : OpensValue (skipBlanks (writeText name ++ cs)) := by
    rw [writeText_eq]
    exact ⟨'"', textBody name ++ cs, skipBlanks_cons (by decide) _, by decide⟩
  cases fields with
  | nil =>
    rw [writeFields_singleton, List.append_assoc, skipBlanks_newline, List.append_assoc]
    exact hopens _
  | cons field fields =>
    rw [writeFields_cons_cons, List.append_assoc, skipBlanks_newline, List.append_assoc]
    exact hopens _

/-! ## Values -/

mutual

/-- With enough fuel for its length, a written value is read back, whatever follows that does not go
on a number. The items of an array and the fields of an object are shorter than the whole, so the
fuel suffices for them as well. -/
theorem readValue?_write (style : Style) : ∀ (j : Json) (depth fuel : Nat) (rest : List Char),
    2 * (j.write style depth).length ≤ fuel + 1 → EndsNumeral rest →
      readValue? (fuel + 1) (j.write style depth ++ rest) = some (j, rest)
  | null, _, _, _, _, _ => rfl
  | bool true, _, _, _, _, _ => rfl
  | bool false, _, _, _, _, _ => rfl
  | number n, depth, fuel, rest, _, hrest => by
    obtain ⟨c, tail, htail, hc⟩ := n.exists_write_eq_cons
    have hread := n.read?_write hrest
    rw [htail, List.cons_append] at hread
    rw [write, htail, List.cons_append, readValue?_number hc, hread, Option.map_some]
  | text s, depth, fuel, rest, _, _ => by
    rw [write, writeText_eq, List.cons_append, readValue?_text (readText?_textBody s rest)]
  | array [], _, _, _, _, _ => rfl
  -- the brackets take two characters, so there is fuel for one call more than for the items
  | array (item :: items), depth, fuel, rest, hfuel, _ => by
    simp only [write, List.length_append, List.length_cons] at hfuel
    obtain ⟨fuel, rfl⟩ := Nat.exists_eq_succ_of_ne_zero (show fuel ≠ 0 by omega)
    have hitems := readItems?_writeItems style (item :: items) (depth + 1) fuel
      (style.newline depth ++ ']' :: rest) rest (List.cons_ne_nil item items) (by omega)
      (endsNumeral_newline style depth rest (.inl rfl)) (skipBlanks_newline style depth _)
    rw [write, List.cons_append, List.cons_append, List.cons_append, List.append_assoc,
      List.append_assoc, List.singleton_append]
    exact readValue?_array (opensValue_writeItems style (depth + 1) item items _) hitems
  | object [], _, _, _, _, _ => rfl
  | object (field :: fields), depth, fuel, rest, hfuel, _ => by
    simp only [write, List.length_append, List.length_cons] at hfuel
    obtain ⟨fuel, rfl⟩ := Nat.exists_eq_succ_of_ne_zero (show fuel ≠ 0 by omega)
    have hfields := readFields?_writeFields style (field :: fields) (depth + 1) fuel
      (style.newline depth ++ '}' :: rest) rest (List.cons_ne_nil field fields) (by omega)
      (endsNumeral_newline style depth rest (.inr rfl)) (skipBlanks_newline style depth _)
    rw [write, List.cons_append, List.cons_append, List.cons_append, List.append_assoc,
      List.append_assoc, List.singleton_append]
    exact readValue?_object (opensValue_writeFields style (depth + 1) field fields _) hfields

/-- Written items are read back up to the closing bracket. -/
theorem readItems?_writeItems (style : Style) : ∀ (items : List Json) (depth fuel : Nat)
    (cs rest : List Char), items ≠ [] → 2 * (writeItems style depth items).length ≤ fuel →
      EndsNumeral cs → skipBlanks cs = ']' :: rest →
        readItems? (fuel + 1) (writeItems style depth items ++ cs) = some (items, rest)
  | [], _, _, _, _, hitems, _, _, _ => absurd rfl hitems
  | [item], depth, fuel, cs, rest, _, hfuel, hends, hclose => by
    have hpos := length_write_pos style depth item
    rw [writeItems_singleton, List.length_append] at hfuel
    obtain ⟨fuel, rfl⟩ := Nat.exists_eq_succ_of_ne_zero (show fuel ≠ 0 by omega)
    have hitem := readValue?_write style item depth fuel cs (by omega) hends
    rw [writeItems_singleton, List.append_assoc,
      readItems?_congr (skipBlanks_newline style depth _)]
    exact readItems?_last hitem hclose
  | item :: item' :: items, depth, fuel, cs, rest, _, hfuel, hends, hclose => by
    simp only [writeItems_cons_cons, List.length_append, List.length_cons] at hfuel
    obtain ⟨fuel, rfl⟩ := Nat.exists_eq_succ_of_ne_zero (show fuel ≠ 0 by omega)
    have hitem := readValue?_write style item depth fuel
      (',' :: (writeItems style depth (item' :: items) ++ cs)) (by omega) (endsNumeral_comma _)
    have hitems := readItems?_writeItems style (item' :: items) depth fuel cs rest
      (List.cons_ne_nil item' items) (by omega) hends hclose
    rw [writeItems_cons_cons, List.append_assoc, List.append_assoc, List.cons_append,
      readItems?_congr (skipBlanks_newline style depth _)]
    exact readItems?_cons hitem rfl hitems

/-- Written fields are read back up to the closing brace. -/
theorem readFields?_writeFields (style : Style) : ∀ (fields : List (Option String × Json))
    (depth fuel : Nat) (cs rest : List Char), fields ≠ [] →
      2 * (writeFields style depth fields).length ≤ fuel → EndsNumeral cs →
        skipBlanks cs = '}' :: rest →
          readFields? (fuel + 1) (writeFields style depth fields ++ cs) = some (fields, rest)
  | [], _, _, _, _, hfields, _, _, _ => absurd rfl hfields
  | [(name, value)], depth, fuel, cs, rest, _, hfuel, hends, hclose => by
    have hpos := length_write_pos style depth value
    simp only [writeFields_singleton, List.length_append] at hfuel
    obtain ⟨fuel, rfl⟩ := Nat.exists_eq_succ_of_ne_zero (show fuel ≠ 0 by omega)
    have hvalue := readValue?_write style value depth fuel cs (by omega) hends
    obtain ⟨cs', htext, hskip⟩ := writeText_colon style name (value.write style depth ++ cs)
    rw [← readValue?_congr hskip] at hvalue
    rw [writeFields_singleton, List.append_assoc, List.append_assoc, List.append_assoc,
      readFields?_congr (skipBlanks_newline style depth _), htext]
    exact readFields?_last name hvalue hclose
  | (name, value) :: field :: fields, depth, fuel, cs, rest, _, hfuel, hends, hclose => by
    simp only [writeFields_cons_cons, List.length_append, List.length_cons] at hfuel
    obtain ⟨fuel, rfl⟩ := Nat.exists_eq_succ_of_ne_zero (show fuel ≠ 0 by omega)
    have hvalue := readValue?_write style value depth fuel
      (',' :: (writeFields style depth (field :: fields) ++ cs)) (by omega) (endsNumeral_comma _)
    have hfields := readFields?_writeFields style (field :: fields) depth fuel cs rest
      (List.cons_ne_nil field fields) (by omega) hends hclose
    obtain ⟨cs', htext, hskip⟩ := writeText_colon style name
      (value.write style depth ++ ',' :: (writeFields style depth (field :: fields) ++ cs))
    rw [← readValue?_congr hskip] at hvalue
    rw [writeFields_cons_cons, List.append_assoc, List.append_assoc, List.append_assoc,
      List.append_assoc, List.cons_append, readFields?_congr (skipBlanks_newline style depth _),
      htext]
    exact readFields?_cons name hvalue rfl hfields

end

/-- The text of a value is read back as the value. -/
theorem parse?_render (style : Style) (j : Json) : parse? (j.render style) = some j := by
  have hread := readValue?_write style j 0 (2 * (j.write style 0).length + 1) [] (by omega)
    endsNumeral_nil
  rw [List.append_nil] at hread
  rw [parse?, render, String.toList_ofList, parseChars?, hread]
  rfl

end MarketEngine.Json
