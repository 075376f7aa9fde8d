import Mathlib.Data.List.Forall2
import Schemata.Emitted.Renaming
import Schemata.Proofs.Emitted.Pattern
import Schemata.Proofs.Number.Numeral

/-!
# Renaming piece by piece

Values are renamed line by line, literal by literal and name by name. What happens to a piece of
code depends on little around it: the character before it, which may be a point, and what follows
it, which may go on with a name or be the colon of a key. So the renaming of a text is put together
from the renamings of its pieces, each stated for every text that may follow.
-/

namespace Schemata.Emitted

open Text

/-! ### Pieces of a line -/

def leadCode : List Piece → List Char
  | .code chars :: _ => chars
  | _ => []

@[simp] theorem leadCode_code (chars : List Char) (rest : List Piece) :
    leadCode (.code chars :: rest) = chars := rfl

def renamePieces (names : Names) (before : Option Char) : List Piece → List Char
  | .code chars :: rest => renameCode names before chars ++ rest.flatMap (Piece.rename names)
  | pieces => pieces.flatMap (Piece.rename names)

theorem renamePieces_none (names : Names) (parts : List Piece) :
    renamePieces names none parts = parts.flatMap (Piece.rename names) := by
  cases parts with
  | nil => rfl
  | cons part rest =>
    cases part with
    | code chars => rfl
    | literal chars => rfl

theorem renameCode_before (names : Names) {before : Option Char} {chars : List Char}
    (h : before ≠ some '.' ∨ ∀ c ∈ chars.head?, isNameChar c = false) :
    renameCode names before chars = renameCode names none chars := by
  cases chars with
  | nil => simp [renameCode]
  | cons c rest =>
    rw [renameCode, renameCode]
    rcases h with hpoint | hname
    · have hpoint : (before == some '.') = false := by simpa using hpoint
      simp [hpoint]
    · simp [hname c (by simp)]

/-- The character in front only matters if it is a point and a name follows. -/
theorem renamePieces_before (names : Names) {before : Option Char} {parts : List Piece}
    (h : before ≠ some '.' ∨ ∀ c ∈ (leadCode parts).head?, isNameChar c = false) :
    renamePieces names before parts = renamePieces names none parts := by
  cases parts with
  | nil => rfl
  | cons part rest =>
    cases part with
    | code chars =>
      rw [leadCode_code] at h
      rw [renamePieces, renamePieces, renameCode_before names h]
    | literal chars => rfl

theorem renamePieces_consCode (names : Names) (before : Option Char) {c : Char}
    (hc : isNameChar c = false) (parts : List Piece) :
    renamePieces names before (Piece.consCode c parts) =
      c :: renamePieces names (some c) parts := by
  have hsingle : renameCode names before [c] = [c] := by simp [renameCode, hc]
  cases parts with
  | nil => simp [Piece.consCode, renamePieces, hsingle]
  | cons part rest =>
    cases part with
    | code chars => simp [Piece.consCode, renamePieces, renameCode, hc]
    | literal chars => simp [Piece.consCode, renamePieces, hsingle]

theorem leadCode_consCode (c : Char) (parts : List Piece) :
    leadCode (Piece.consCode c parts) = c :: leadCode parts := by
  cases parts with
  | nil => rfl
  | cons part rest => cases part <;> rfl

/-- What a name becomes, given the character in front and the code after it. -/
def shownName (names : Names) (before : Option Char) (name rest : List Char) : List Char :=
  if before == some '.' || (dropBlanks rest).head? == some ':' then name
  else (names.get? name).getD name

theorem renameCode_name (names : Names) (before : Option Char) {name rest : List Char}
    (hname : IsName name) (hrest : ∀ c ∈ rest.head?, isNameChar c = false) :
    renameCode names before (name ++ rest) =
      shownName names before name rest ++ renameCode names name.getLast? rest := by
  obtain ⟨c, more, rfl⟩ := List.exists_cons_of_ne_nil hname.1
  have hmore : ∀ d ∈ more, isNameChar d = true := fun d hd => hname.2 d (by simp [hd])
  rw [List.cons_append, renameCode, if_pos (hname.2 c (by simp)),
    takeWhile_isNameChar hmore hrest, dropWhile_isNameChar hmore hrest]
  rfl

theorem foldr_consCode (name : List Char) (hne : name ≠ []) (parts : List Piece) :
    name.foldr Piece.consCode parts = match parts with
      | .code chars :: rest => .code (name ++ chars) :: rest
      | parts => .code name :: parts := by
  induction name with
  | nil => exact absurd rfl hne
  | cons c name ih =>
    cases name with
    | nil =>
      cases parts with
      | nil => rfl
      | cons part rest => cases part <;> rfl
    | cons d name =>
      rw [List.foldr_cons, ih (by simp)]
      cases parts with
      | nil => rfl
      | cons part rest => cases part <;> rfl

theorem renamePieces_name (names : Names) (before : Option Char) {name : List Char}
    (hname : IsName name) {parts : List Piece}
    (hparts : ∀ c ∈ (leadCode parts).head?, isNameChar c = false) :
    renamePieces names before (name.foldr Piece.consCode parts) =
      shownName names before name (leadCode parts) ++
        renamePieces names name.getLast? parts := by
  have halone : renameCode names before name = shownName names before name [] := by
    have hcode := renameCode_name names before hname
      (show ∀ c ∈ ([] : List Char).head?, isNameChar c = false by simp)
    simpa [renameCode] using hcode
  rw [foldr_consCode name hname.1]
  cases parts with
  | nil => simp [renamePieces, leadCode, halone]
  | cons part rest =>
    cases part with
    | code chars =>
      rw [leadCode_code] at hparts ⊢
      rw [renamePieces, renameCode_name names before hname hparts, renamePieces, List.append_assoc]
    | literal chars => simp [renamePieces, leadCode, halone]

/-! ### Pieces of a text -/

theorem pieces_cons {c : Char} (hc : isQuote c = false) (rest : List Char) :
    pieces (c :: rest) = Piece.consCode c (pieces rest) := by
  have hquote : (c == '"' || c == '\'' || c == '`') = false := hc
  rw [pieces, hquote]
  rfl

theorem isQuote_eq_false_of_isNameChar {c : Char} (h : isNameChar c = true) :
    isQuote c = false := by
  cases hquote : isQuote c with
  | false => rfl
  | true =>
    simp only [isQuote, Bool.or_eq_true, beq_iff_eq] at hquote
    rcases hquote with (rfl | rfl) | rfl <;> exact absurd h (by decide)

theorem pieces_name {name : List Char} (hname : ∀ c ∈ name, isNameChar c = true)
    (rest : List Char) : pieces (name ++ rest) = name.foldr Piece.consCode (pieces rest) := by
  induction name with
  | nil => rfl
  | cons c name ih =>
    have hquote := isQuote_eq_false_of_isNameChar (hname c (by simp))
    rw [List.cons_append, pieces_cons hquote, ih fun d hd => hname d (by simp [hd])]
    rfl

/-- The inside of a literal: the closing quote only after a backslash, no line feed. -/
def isLiteralBody (quote : Char) : List Char → Bool
  | [] => true
  | '\\' :: c :: rest => c != '\n' && isLiteralBody quote rest
  | c :: rest => c != '\\' && c != quote && c != '\n' && isLiteralBody quote rest

/-- A complete literal between single or double quotes. -/
def isLiteral : List Char → Bool
  | [] => false
  | quote :: rest =>
    (quote == '"' || quote == '\'') && rest.getLast? == some quote &&
      isLiteralBody quote rest.dropLast

theorem closeLiteral_append {quote : Char} (hquote : quote ≠ '\\') {inside : List Char}
    (h : isLiteralBody quote inside = true) (rest : List Char) :
    closeLiteral quote (inside ++ quote :: rest) = some (inside, rest) := by
  fun_induction isLiteralBody quote inside with
  | case1 =>
    rw [List.nil_append, closeLiteral.eq_4 quote quote rest (fun heq => hquote heq)]
    simp
  | case2 c inside ih =>
    rw [Bool.and_eq_true, bne_iff_ne] at h
    rw [List.cons_append, List.cons_append, closeLiteral, ih h.2]
    simp [h.1]
  | case3 c inside _ ih =>
    simp only [Bool.and_eq_true, bne_iff_ne] at h
    obtain ⟨⟨⟨hback, hclose⟩, hfeed⟩, hinside⟩ := h
    rw [List.cons_append, closeLiteral.eq_4 quote c _ (fun heq => hback heq), ih hinside]
    simp [hclose, hfeed]

theorem isLiteral_eq_true {chars : List Char} (h : isLiteral chars = true) :
    ∃ quote inside, chars = quote :: (inside ++ [quote]) ∧ isQuote quote = true ∧
      quote ≠ '\\' ∧ isLiteralBody quote inside = true := by
  cases chars with
  | nil => cases h
  | cons quote rest =>
    simp only [isLiteral, Bool.and_eq_true, Bool.or_eq_true, beq_iff_eq] at h
    obtain ⟨⟨hquote, hlast⟩, hinside⟩ := h
    refine ⟨quote, rest.dropLast, ?_, ?_, ?_, hinside⟩
    · rw [List.dropLast_append_getLast? quote hlast]
    · rcases hquote with rfl | rfl <;> decide
    · rcases hquote with rfl | rfl <;> decide

theorem pieces_literal {literal : List Char} (h : isLiteral literal = true) (rest : List Char) :
    pieces (literal ++ rest) = .literal literal :: pieces rest := by
  obtain ⟨quote, inside, rfl, hquote, hback, hinside⟩ := isLiteral_eq_true h
  have hopen : (quote == '"' || quote == '\'' || quote == '`') = true := hquote
  have happend : quote :: (inside ++ [quote]) ++ rest = quote :: (inside ++ quote :: rest) := by
    simp
  have hlength : rest.length ≤ (inside ++ quote :: rest).length := by
    simp only [List.length_append, List.length_cons]
    omega
  rw [happend, pieces, if_pos hopen, closeLiteral_append hback hinside]
  simp only [hlength, if_true]
  rfl

theorem head_leadCode_pieces {chars : List Char} {c : Char}
    (h : c ∈ (leadCode (pieces chars)).head?) : c ∈ chars.head? := by
  cases chars with
  | nil => simp [pieces, leadCode] at h
  | cons d rest =>
    rw [pieces] at h
    split at h
    · rename_i inside after hclose
      split at h
      · simp [leadCode] at h
      · simpa [leadCode] using h
    · rw [leadCode_consCode] at h
      simpa using h

/-! ### One pass over all lines -/

def firstLine (chars : List Char) : List Char :=
  match splitLines chars with
  | [] => []
  | line :: _ => line.chars

/-- Renames the values in a text line by line, given the character in front. -/
def renameText (names : Names) (before : Option Char) (chars : List Char) : List Char :=
  renamePieces names before (pieces (firstLine chars)) ++
    (splitLines chars).tail.flatMap fun line => renameValues names line.chars

/-- The code at the beginning of a text, up to the first literal and the end of the line. -/
def codeHead (chars : List Char) : List Char := leadCode (pieces (firstLine chars))

/-- With nothing in front, the lines are renamed one by one. -/
theorem renameText_none (names : Names) (chars : List Char) :
    renameText names none chars =
      (splitLines chars).flatMap fun line => renameValues names line.chars := by
  rw [renameText, firstLine, renamePieces_none]
  cases splitLines chars with
  | nil => simp [pieces]
  | cons line lines => rfl

theorem firstLine_append {chars : List Char} (h : Unbroken chars) (rest : List Char) :
    firstLine (chars ++ rest) = chars ++ firstLine rest := by
  induction chars with
  | nil => rfl
  | cons c chars ih =>
    rw [unbroken_cons] at h
    have hrest := ih h.2
    rw [List.cons_append, firstLine, splitLines_cons h.1]
    rw [firstLine] at hrest
    cases hlines : splitLines (chars ++ rest) with
    | nil =>
      rw [hlines] at hrest
      simp only at hrest
      rw [List.cons_append, ← hrest]
      rfl
    | cons line lines =>
      rw [hlines] at hrest
      simp only at hrest
      rw [List.cons_append, ← hrest]
      rfl

theorem tail_splitLines_append {chars : List Char} (h : Unbroken chars) (rest : List Char) :
    (splitLines (chars ++ rest)).tail = (splitLines rest).tail := by
  induction chars with
  | nil => rfl
  | cons c chars ih =>
    rw [unbroken_cons] at h
    rw [List.cons_append, splitLines_cons h.1, ← ih h.2]
    cases splitLines (chars ++ rest) with
    | nil => rfl
    | cons line lines => rfl

theorem head_firstLine (chars : List Char) : (firstLine chars).head? = chars.head? := by
  rw [firstLine]
  fun_cases splitLines chars with
  | case1 => rfl
  | case2 rest => rfl
  | case3 c rest _ hbreak => simp [Line.chars]
  | case4 c rest _ hbreak hnil => simp [Line.chars]
  | case5 c rest _ hbreak line lines hcons => simp

theorem codeHead_cons {c : Char} (hbreak : isLineBreak c = false) (hquote : isQuote c = false)
    (rest : List Char) : codeHead (c :: rest) = c :: codeHead rest := by
  rw [codeHead, ← List.singleton_append, firstLine_append (by simpa using hbreak),
    List.singleton_append, pieces_cons hquote, leadCode_consCode]
  rfl

theorem head_codeHead {chars : List Char} {c : Char} (h : c ∈ (codeHead chars).head?) :
    c ∈ chars.head? := by
  rw [← head_firstLine]
  exact head_leadCode_pieces h

theorem renameText_before (names : Names) {before : Option Char} {chars : List Char}
    (h : before ≠ some '.' ∨ ∀ c ∈ chars.head?, isNameChar c = false) :
    renameText names before chars = renameText names none chars := by
  rw [renameText, renameText, renamePieces_before names]
  rcases h with hpoint | hname
  · exact Or.inl hpoint
  · exact Or.inr fun c hc => hname c (head_codeHead hc)

theorem firstLine_feed (rest : List Char) : firstLine ('\n' :: rest) = ['\n'] := by
  have hlines := splitLines_append_feed unbroken_nil rest
  rw [List.nil_append] at hlines
  rw [firstLine, hlines]
  rfl

theorem pieces_feed : pieces ['\n'] = [.code ['\n']] := by
  rw [pieces_cons (by decide), pieces]
  rfl

theorem renameText_feed (names : Names) (before : Option Char) (rest : List Char) :
    renameText names before ('\n' :: rest) = '\n' :: renameText names none rest := by
  have hlines := splitLines_append_feed unbroken_nil rest
  rw [List.nil_append] at hlines
  have hfeed : isNameChar '\n' = false := by decide
  rw [renameText, firstLine_feed, pieces_feed, hlines, renameText_none]
  simp [renamePieces, renameCode, hfeed]

theorem renameText_cons (names : Names) (before : Option Char) {c : Char}
    (hname : isNameChar c = false) (hquote : isQuote c = false) (hbreak : isLineBreak c = false)
    (rest : List Char) :
    renameText names before (c :: rest) = c :: renameText names (some c) rest := by
  have hunbroken : Unbroken [c] := by simpa using hbreak
  have hfirst := firstLine_append hunbroken rest
  have htail := tail_splitLines_append hunbroken rest
  rw [List.singleton_append] at hfirst htail
  rw [renameText, hfirst, htail, List.singleton_append, pieces_cons hquote,
    renamePieces_consCode names before hname]
  rfl

theorem renameText_name (names : Names) (before : Option Char) {name rest : List Char}
    (hname : IsName name) (hrest : ∀ c ∈ rest.head?, isNameChar c = false) :
    renameText names before (name ++ rest) =
      shownName names before name (codeHead rest) ++ renameText names none rest := by
  rw [renameText, firstLine_append hname.unbroken, tail_splitLines_append hname.unbroken,
    pieces_name hname.2,
    renamePieces_name names before hname fun c hc => hrest c (head_codeHead hc),
    List.append_assoc, ← renameText_before names (Or.inr hrest)]
  rfl

theorem renameText_literal (names : Names) (before : Option Char) {literal : List Char}
    (hliteral : isLiteral literal = true) (hunbroken : Unbroken literal) (rest : List Char) :
    renameText names before (literal ++ rest) = literal ++ renameText names none rest := by
  rw [renameText, firstLine_append hunbroken, tail_splitLines_append hunbroken,
    pieces_literal hliteral, renameText, renamePieces_none, renamePieces, List.flatMap_cons,
    List.append_assoc]
  · rfl
  · simp

/-! ### Putting pieces together -/

/-- What may stand behind a name: no more of the name, and not the colon of a key. -/
structure Stops (rest : List Char) : Prop where
  apart : ∀ c ∈ rest.head?, isNameChar c = false
  noColon : (dropBlanks (codeHead rest)).head? ≠ some ':'

/-- The text stays as it is, whatever follows. -/
def Passes (names : Names) (chars : List Char) : Prop :=
  ∀ rest, renameText names none (chars ++ rest) = chars ++ renameText names none rest

/-- The text becomes another one, if it ends where it ends. -/
def Rewrites (names : Names) (source target : List Char) : Prop :=
  ∀ rest, Stops rest →
    renameText names none (source ++ rest) = target ++ renameText names none rest

/-- The text may stand behind a name. -/
def Separates (chars : List Char) : Prop := ∀ rest, Stops rest → Stops (chars ++ rest)

/-- Marks between names and literals. A point is none, since it changes what follows. -/
def isMark (c : Char) : Bool :=
  !isNameChar c && !isQuote c && c != '.' && (!isLineBreak c || c == '\n')

variable {names : Names}

theorem Passes.append {first second : List Char} (hfirst : Passes names first)
    (hsecond : Passes names second) : Passes names (first ++ second) := by
  intro rest
  rw [List.append_assoc, hfirst, hsecond, List.append_assoc]

theorem Passes.rewrites {chars : List Char} (h : Passes names chars) :
    Rewrites names chars chars := fun rest _ => h rest

/-- After text that passes, anything may follow. -/
theorem Passes.append_rewrites {first source target : List Char} (hfirst : Passes names first)
    (h : Rewrites names source target) : Rewrites names (first ++ source) (first ++ target) := by
  intro rest hrest
  rw [List.append_assoc, hfirst, h rest hrest, List.append_assoc]

/-- Other text has to be told from what follows. -/
theorem Rewrites.append {source target source' target' : List Char}
    (h : Rewrites names source target) (h' : Rewrites names source' target')
    (hseparates : Separates source') :
    Rewrites names (source ++ source') (target ++ target') := by
  intro rest hrest
  rw [List.append_assoc, h _ (hseparates rest hrest), h' rest hrest, List.append_assoc]

theorem passes_nil : Passes names [] := fun _ => rfl

theorem passes_marks (chars : List Char) (h : chars.all isMark = true) : Passes names chars := by
  intro rest
  induction chars with
  | nil => rfl
  | cons c chars ih =>
    simp only [List.all_cons, isMark, Bool.and_eq_true, Bool.or_eq_true, Bool.not_eq_true',
      bne_iff_ne, beq_iff_eq] at h
    obtain ⟨⟨⟨⟨hname, hquote⟩, hpoint⟩, hbreak⟩, hmarks⟩ := h
    have hrest := ih hmarks
    rcases hbreak with hbreak | rfl
    · rw [List.cons_append, renameText_cons names none hname hquote hbreak,
        renameText_before names (Or.inl (by simpa using hpoint)), hrest, List.cons_append]
    · rw [List.cons_append, renameText_feed, hrest, List.cons_append]

theorem passes_literal {literal : List Char} (hliteral : isLiteral literal = true)
    (hunbroken : Unbroken literal) : Passes names literal :=
  fun rest => renameText_literal names none hliteral hunbroken rest

/-- A key with its colon stays, whatever it is called. -/
theorem passes_key {key : List Char} (hkey : IsName key) : Passes names (key ++ ": ".toList) := by
  intro rest
  have hcolon : ∀ c ∈ (": ".toList ++ rest).head?, isNameChar c = false := by
    rintro c ⟨⟩
    decide
  have hcode : codeHead (": ".toList ++ rest) = ':' :: ' ' :: codeHead rest := by
    change codeHead (':' :: ' ' :: rest) = _
    rw [codeHead_cons (by decide) (by decide), codeHead_cons (by decide) (by decide)]
  have hshown : shownName names none key (':' :: ' ' :: codeHead rest) = key := by
    have hblank : isBlank ':' = false := by decide
    simp [shownName, dropBlanks, hblank]
  have hmarks : Passes names ": ".toList := passes_marks _ (by decide)
  rw [List.append_assoc, renameText_name names none hkey hcolon, hcode, hshown, hmarks,
    List.append_assoc]

/-- A name on its own gets its new name. -/
theorem rewrites_name {name : List Char} (hname : IsName name) :
    Rewrites names name ((names.get? name).getD name) := by
  intro rest hrest
  have hcolon : ((dropBlanks (codeHead rest)).head? == some ':') = false := by
    simpa using hrest.noColon
  rw [renameText_name names none hname hrest.apart, shownName, hcolon]
  rfl

theorem rewrites_word {word : List Char} (hword : IsName word) (h : names.get? word = none) :
    Rewrites names word word := by
  have hrewrites : Rewrites names word ((names.get? word).getD word) := rewrites_name hword
  rwa [h] at hrewrites

/-- A member stays, whatever it is called. -/
theorem rewrites_member {word member : List Char} (hword : IsName word)
    (h : names.get? word = none) (hmember : IsName member) :
    Rewrites names (word ++ '.' :: member) (word ++ '.' :: member) := by
  intro rest hrest
  have hpoint : ∀ c ∈ ('.' :: (member ++ rest)).head?, isNameChar c = false := by
    rintro c ⟨⟩
    decide
  have hshown : ∀ code, shownName names none word code = word := by
    intro code
    rw [shownName, h]
    simp
  have hkept : ∀ code, shownName names (some '.') member code = member := by
    intro code
    simp [shownName]
  rw [List.append_assoc, List.cons_append, renameText_name names none hword hpoint, hshown,
    renameText_cons names none (by decide) (by decide) (by decide),
    renameText_name names (some '.') hmember hrest.apart, hkept]
  simp

theorem stops_feed (rest : List Char) : Stops ('\n' :: rest) where
  apart := by
    rintro c ⟨⟩
    decide
  noColon := by
    rw [codeHead, firstLine_feed, pieces_feed]
    decide

/-- Whether a character shows that no colon follows. -/
def barsColon (c : Char) : Bool := !isQuote c && !isBlank c && c != ':'

theorem head_dropBlanks_codeHead {c : Char} (h : barsColon c = true) (rest : List Char) :
    (dropBlanks (codeHead (c :: rest))).head? = some c ∧ c ≠ ':' := by
  simp only [barsColon, Bool.and_eq_true, Bool.not_eq_true', bne_iff_ne] at h
  obtain ⟨⟨hquote, hblank⟩, hcolon⟩ := h
  have hbreak : isLineBreak c = false := by
    cases hbreak : isLineBreak c with
    | false => rfl
    | true =>
      rw [isBlank_of_isLineBreak hbreak] at hblank
      cases hblank
  rw [codeHead_cons hbreak hquote, dropBlanks, List.dropWhile_cons, hblank]
  exact ⟨rfl, hcolon⟩

theorem separates_cons {c : Char} (hname : isNameChar c = false) (h : barsColon c = true)
    (chars : List Char) : Separates (c :: chars) := by
  intro rest _
  obtain ⟨hhead, hcolon⟩ := head_dropBlanks_codeHead h (chars ++ rest)
  refine ⟨?_, ?_⟩
  · rintro d ⟨⟩
    exact hname
  · rw [List.cons_append, hhead]
    simpa using hcolon

theorem separates_blank {c : Char} (h : barsColon c = true) (chars : List Char) :
    Separates (' ' :: c :: chars) := by
  intro rest _
  obtain ⟨hhead, hcolon⟩ := head_dropBlanks_codeHead h (chars ++ rest)
  have hspace : isBlank ' ' = true := by decide
  refine ⟨?_, ?_⟩
  · rintro d ⟨⟩
    decide
  · rw [List.cons_append, List.cons_append, codeHead_cons (by decide) (by decide), dropBlanks,
      List.dropWhile_cons, if_pos hspace]
    rw [dropBlanks] at hhead
    rw [hhead]
    simpa using hcolon

theorem separates_feed (chars : List Char) : Separates ('\n' :: chars) :=
  fun rest _ => stops_feed (chars ++ rest)

/-- Texts that are rewritten, with separators between them. -/
theorem rewrites_intercalate {separator : List Char} (hpasses : Passes names separator)
    (hseparates : ∀ chars, Separates (separator ++ chars)) {sources targets : List (List Char)}
    (h : List.Forall₂ (Rewrites names) sources targets) :
    Rewrites names (separator.intercalate sources) (separator.intercalate targets) := by
  induction h with
  | nil => exact passes_nil.rewrites
  | @cons source target sources targets hfirst hrest ih =>
    cases hrest with
    | nil => simpa using hfirst
    | cons hnext hmore =>
      rw [List.intercalate_cons_cons, List.intercalate_cons_cons, List.append_assoc,
        List.append_assoc]
      exact hfirst.append (hpasses.append_rewrites ih) (hseparates _)

/-- Text between brackets of any kind. -/
theorem Rewrites.enclose {opening source target closing : List Char}
    (h : Rewrites names source target) (hopening : Passes names opening)
    (hclosing : Passes names closing) (hseparates : Separates closing) :
    Rewrites names (opening ++ (source ++ closing)) (opening ++ (target ++ closing)) :=
  hopening.append_rewrites (h.append hclosing.rewrites hseparates)

/-! ### Numbers -/

/-- No new name is given to anything that begins with a digit. -/
def SkipsDigits (names : Names) : Prop :=
  ∀ c rest, c.isDigit = true → names.get? (c :: rest) = none

/-- A number stays as it is. -/
theorem renameText_numeral (hnames : SkipsDigits names) (chars : List Char)
    (h : isNumeral false chars = true) (before : Option Char) {rest : List Char}
    (hrest : ∀ c ∈ rest.head?, isNameChar c = false) :
    renameText names before (chars ++ rest) = chars ++ renameText names none rest := by
  cases chars with
  | nil => exact renameText_before names (Or.inr hrest)
  | cons c chars =>
    rw [isNumeral] at h
    split at h
    · -- the digits and exponent marks up to the next point or sign are one name
      rename_i hdigit
      let run := c :: chars.takeWhile isNameChar
      let more := chars.dropWhile isNameChar
      have hsplit : c :: chars = run ++ more := by
        simp [run, more, List.takeWhile_append_dropWhile]
      have hrun : IsName run := by
        refine ⟨by simp [run], ?_⟩
        intro d hd
        rcases List.mem_cons.1 hd with rfl | hd
        · exact isNameChar_of_isDigit hdigit
        · exact List.all_eq_true.1 List.all_takeWhile d hd
      have hmore : isNumeral false more = true := isNumeral_dropWhile h
      have hapart : ∀ d ∈ (more ++ rest).head?, isNameChar d = false := by
        intro d hd
        cases hcases : more with
        | nil =>
          rw [hcases] at hd
          exact hrest d hd
        | cons e tail =>
          rw [hcases] at hd
          cases hd
          have hnot := List.head?_dropWhile_not isNameChar chars
          rw [show chars.dropWhile isNameChar = d :: tail from hcases] at hnot
          simpa using hnot
      have hshown : ∀ code, shownName names before run code = run := by
        intro code
        rw [shownName, hnames c _ hdigit]
        simp [run]
      have hlength : more.length < (c :: chars).length := by
        have := (List.dropWhile_suffix isNameChar : chars.dropWhile isNameChar <:+ chars).length_le
        simp only [List.length_cons, more]
        omega
      rw [hsplit, List.append_assoc, renameText_name names before hrun hapart, hshown,
        renameText_numeral hnames more hmore none hrest, List.append_assoc]
    · split at h
      · cases h
      · simp only [Bool.and_eq_true, Bool.or_eq_true, beq_iff_eq] at h
        have hmark : isNameChar c = false ∧ isQuote c = false ∧ isLineBreak c = false := by
          rcases h.1 with (rfl | rfl) | rfl <;> decide
        rw [List.cons_append, renameText_cons names before hmark.1 hmark.2.1 hmark.2.2,
          renameText_numeral hnames chars h.2 (some c) hrest, List.cons_append]
termination_by chars.length

theorem rewrites_numeral (hnames : SkipsDigits names) {chars : List Char}
    (h : isNumeral false chars = true) : Rewrites names chars chars :=
  fun _ hrest => renameText_numeral hnames chars h none hrest.apart

end Schemata.Emitted
