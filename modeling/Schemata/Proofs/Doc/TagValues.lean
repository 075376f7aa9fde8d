import Schemata.Doc.Tag
import Schemata.Proofs.Mapping

/-!
# What the value of a tag is read as

A value is looked at for a literal at its start. If none is found there, or the one that is found is
refused, the value is kept as text; else it is the literal. So options never hold lists or objects,
although the same kind of value stands for whole documents.
-/

namespace Schemata

/-- The value is no list and no object. -/
def Json.isAtom : Json → Bool
  | .null | .bool _ | .int _ | .float _ | .str _ | .broken _ => true
  | .arr _ | .obj _ => false

/-- A string, a whole number, a double, a truth value or null, or text that is kept. -/
def OptionValue.isAtom : OptionValue → Bool
  | .literal value => value.isAtom
  | .raw _ => true

/-! ### Quoted literals -/

namespace Json

theorem isAtom_ofPoints (points : List Nat) : (ofPoints points).isAtom = true := by
  unfold ofPoints
  split <;> rfl

theorem isAtom_of_readValue {fuel : Nat} {place stop : Place} {value : Json}
    (hquote : place.rest.head? = some '"') (h : readValue fuel place = .ok (value, stop)) :
    value.isAtom = true := by
  obtain ⟨tail, htail⟩ := List.head?_eq_some_iff.1 hquote
  cases fuel with
  | zero => cases h
  | succ fuel =>
    rw [readValue, htail] at h
    dsimp only at h
    cases hstring : readString place.position fuel (place.skip 1) with
    | error error =>
      rw [hstring] at h
      cases h
    | ok found =>
      rw [hstring] at h
      cases h
      exact isAtom_ofPoints _

/-- A document that begins with a quote is a string. -/
theorem isAtom_of_read {document : String} {value : Json}
    (hquote : document.toList.head? = some '"') (h : read document = .ok value) :
    value.isAtom = true := by
  obtain ⟨tail, htail⟩ := List.head?_eq_some_iff.1 hquote
  rw [read, htail] at h
  dsimp only at h
  split at h
  · cases h
  · cases hvalue : readValue (2 * ('"' :: tail).length + 2) (Place.mk 0 ('"' :: tail)).skipBlanks with
    | error error =>
      rw [hvalue] at h
      cases h
    | ok found =>
      rw [hvalue] at h
      change (if _ then _ else _) = _ at h
      split at h
      · cases h
        exact isAtom_of_readValue rfl hvalue
      · cases h

end Json

namespace Doc

open Text

/-- A quoted literal has its quotes, and a word stands for a single value. -/
def Lexeme.Fits : Lexeme → Prop
  | .double literal => literal.head? = some '"'
  | .word value => value.isAtom = true
  | .single _ | .number _ => True

theorem fits_of_lexeme? {chars after : List Char} {lexeme : Lexeme}
    (h : lexeme? chars = some (lexeme, after)) : lexeme.Fits := by
  unfold lexeme? at h
  split at h
  · obtain ⟨found, -, hfound⟩ := Option.map_eq_some_iff.1 h
    cases hfound
    rfl
  · obtain ⟨found, -, hfound⟩ := Option.map_eq_some_iff.1 h
    cases hfound
    trivial
  · dsimp only at h
    split at h
    · cases h
      trivial
    · obtain ⟨word, hword, hfound⟩ := Option.map_eq_some_iff.1 h
      cases hfound
      have hwords : ∀ word ∈ literalWords, word.2.isAtom = true := by decide
      exact hwords word (List.mem_of_find?_eq_some hword)

theorem isAtom_of_numberValue {chars : List Char} {value : Json}
    (h : numberValue chars = .ok value) : value.isAtom = true := by
  unfold numberValue at h
  extract_lets negative body whole places exponent at h
  split at h
  · split at h
    · cases h
    · cases h
      rfl
  · cases h
    rfl

/-! ### Values -/

/-- A literal that was found at the start of a value is not its value: the text goes on behind it
without a blank, or it is quoted and cannot be read. -/
inductive Refused : Lexeme → List Char → Prop where
  | goesOn {lexeme : Lexeme} {c : Char} {rest : List Char} (hc : isBlank c = false) :
      Refused lexeme (c :: rest)
  | unreadable {literal after : List Char} {error : Json.ReadError}
      (h : Json.read (String.ofList literal) = .error error) : Refused (.double literal) after

/-- What a value without blanks around it is read as. -/
inductive ReadAs (chars : List Char) : Except DigitLimit OptionValue → Prop where
  | nothing (hempty : chars = []) : ReadAs chars (.ok (.literal (.bool true)))
  | text (hnone : lexeme? chars = none) : ReadAs chars (.ok (.raw (String.ofList chars)))
  | refused {lexeme : Lexeme} {after : List Char} (h : lexeme? chars = some (lexeme, after))
      (hrefused : Refused lexeme after) : ReadAs chars (.ok (.raw (String.ofList chars)))
  | literal {lexeme : Lexeme} {after : List Char} {value : Json}
      (h : lexeme? chars = some (lexeme, after)) (hends : ∀ c ∈ after.head?, isBlank c = true)
      (hatom : value.isAtom = true) : ReadAs chars (.ok (.literal value))
  | tooLong {lexeme : Lexeme} {after : List Char} {limit : DigitLimit}
      (h : lexeme? chars = some (lexeme, after)) : ReadAs chars (.error limit)

theorem readAs_tagValue (text : List Char) : ReadAs (trimChars text) (tagValue text) := by
  unfold tagValue
  dsimp only
  split
  · rename_i hempty
    exact .nothing (List.isEmpty_iff.1 hempty)
  · split
    · rename_i hnone
      exact .text hnone
    · rename_i lexeme after hlexeme
      have hfits := fits_of_lexeme? hlexeme
      split
      · rename_i hgoes
        cases after with
        | nil => cases hgoes
        | cons c rest => exact .refused hlexeme (.goesOn (by simpa using hgoes))
      · rename_i hstops
        have hends : ∀ c ∈ after.head?, isBlank c = true := by
          cases after with
          | nil => simp
          | cons c rest => simpa using hstops
        cases lexeme with
        | double literal =>
          dsimp only
          split
          · rename_i value hvalue
            refine .literal hlexeme hends (Json.isAtom_of_read ?_ hvalue)
            rw [String.toList_ofList]
            exact hfits
          · rename_i error herror
            exact .refused hlexeme (.unreadable herror)
        | single inside => exact .literal hlexeme hends rfl
        | number digits =>
          dsimp only
          cases hvalue : numberValue digits with
          | error limit => exact .tooLong hlexeme
          | ok value => exact .literal hlexeme hends (isAtom_of_numberValue hvalue)
        | word value => exact .literal hlexeme hends hfits

theorem isAtom_of_tagValue {text : List Char} {value : OptionValue}
    (h : tagValue text = .ok value) : value.isAtom = true := by
  have hread := readAs_tagValue text
  rw [h] at hread
  cases hread with
  | nothing _ => rfl
  | text _ => rfl
  | refused _ _ => rfl
  | literal _ _ hatom => exact hatom

/-- The options of a comment hold neither lists nor objects. -/
theorem isAtom_of_options {comment : String} {entries : Options}
    (h : options comment = .ok entries) : ∀ entry ∈ entries, entry.2.isAtom = true := by
  unfold options at h
  generalize tags comment = found at h
  have hstart : ∀ entry ∈ ([] : Options), entry.2.isAtom = true := by simp
  generalize ([] : Options) = start at h hstart
  induction found generalizing start with
  | nil =>
    cases h
    exact hstart
  | cons tag rest ih =>
    rw [List.foldlM_cons] at h
    cases hvalue : tagValue tag.value with
    | error limit =>
      rw [hvalue] at h
      cases h
    | ok value =>
      rw [hvalue] at h
      refine ih _ h ?_
      exact forall_mem_setEntry (p := fun value : OptionValue => value.isAtom = true)
        (isAtom_of_tagValue hvalue) hstart

end Doc

end Schemata
