import Schemata.Proofs.Schema.Leaves
import Schemata.Proofs.Schema.OptionLiterals

/-!
# Clean expressions

An expression is clean if its names are plain, its texts are rows of digits or literals, and its
options are simple. Rendering a clean expression never fails, and what comes out is given here
character by character.
-/

namespace Schemata

open Text Emitted

def isDigitRow (chars : List Char) : Bool := !chars.isEmpty && chars.all isDecimal

def isCleanText (chars : List Char) : Bool := isDigitRow chars || isLiteral chars

def isCleanKey (chars : List Char) : Bool := isPlainName chars || isLiteral chars

/-- The values that are strings, texts or not, whole numbers or words. -/
def OptionValue.isScalar : OptionValue → Bool
  | .literal (.str _) | .literal (.int _) | .literal (.bool _) | .literal .null => true
  | .literal (.broken points) => holdsHalf points
  | _ => false

def isCleanEntry (entry : String × OptionValue) : Bool :=
  isPlainName entry.1.toList && entry.2.isScalar

def Options.isClean (options : Options) : Bool := options.all isCleanEntry

namespace Expr

/-- The outermost constructor has clean names, texts and options. Nothing may be missing: what is
absent leaves no trace in the code, and what is unknown has none. -/
def isCleanHere : Expr → Bool
  | .call name _ options => isPlainName name.toList && options.isClean
  | .ref name => isPlainName name.toList
  | .apply callee _ => isPlainName callee.toList
  | .raw text => isCleanText text.toList
  | .array _ => true
  | .object fields => fields.all fun field => isCleanKey field.1.toList
  | .recursive name _ => isPlainName name.toList
  | .absent | .bare => false

/-- The expression is clean throughout. -/
def Clean (expr : Expr) : Prop := expr.Everywhere fun inner => inner.isCleanHere = true

instance (expr : Expr) : Decidable expr.Clean := List.decidableBAll _ expr.subterms

theorem Clean.here {expr : Expr} (h : expr.Clean) : expr.isCleanHere = true :=
  h expr (self_mem_subterms expr)

def CleanField (field : String × Expr) : Prop := isCleanKey field.1.toList = true ∧ field.2.Clean

theorem clean_object_iff {fields : List (String × Expr)} :
    (Expr.object fields).Clean ↔ ∀ field ∈ fields, CleanField field := by
  rw [Clean, everywhere_object_iff, isCleanHere, List.all_eq_true]
  exact ⟨fun h field hmem => ⟨h.1 field hmem, h.2 field hmem⟩,
    fun h => ⟨fun field hmem => (h field hmem).1, fun field hmem => (h field hmem).2⟩⟩

/-! ### The code as a list of characters -/

/-- The code of options as a further argument; no options are no argument. -/
def optionCodes (options : Options) : List (List Char) :=
  if options.isEmpty then [] else [options.render.toList]

def constructorCode (name : String) (arguments : List (List Char)) : List Char :=
  ['T', 'y', 'p', 'e', '.'] ++ (name.toList ++ '(' :: ([',', ' '].intercalate arguments ++ [')']))

mutual

def code (level : Int) : Expr → List Char
  | .absent | .bare => []
  | .ref name => name.toList
  | .raw text => text.toList
  | .call name args options => constructorCode name (codes level args ++ optionCodes options)
  | .apply callee args =>
    callee.toList ++ '(' :: ([',', ' '].intercalate (codes level args) ++ [')'])
  | .array items => '[' :: ([',', ' '].intercalate (codes level items) ++ [']'])
  | .object fields =>
    if fields.isEmpty then ['{', '}']
    else '{' :: '\n' :: ([',', '\n'].intercalate (fieldCodes level fields) ++
      '\n' :: ((indentation level).toList ++ ['}']))
  | .recursive name body =>
    constructorCode "Recursive" [name.toList ++ ([' ', '=', '>', ' '] ++ code level body)]

def codes (level : Int) : List Expr → List (List Char)
  | [] => []
  | expr :: rest => code level expr :: codes level rest

def fieldCodes (level : Int) : List (String × Expr) → List (List Char)
  | [] => []
  | (name, value) :: rest =>
    ((indentation (level + 1)).toList ++ (name.toList ++ ':' :: ' ' :: code (level + 1) value)) ::
      fieldCodes level rest

end

theorem codes_eq_map (level : Int) (exprs : List Expr) :
    codes level exprs = exprs.map (code level) := by
  induction exprs with
  | nil => rfl
  | cons expr exprs ih => rw [codes, ih, List.map_cons]

def fieldCode (level : Int) (field : String × Expr) : List Char :=
  (indentation (level + 1)).toList ++ (field.1.toList ++ ':' :: ' ' :: code (level + 1) field.2)

theorem fieldCodes_eq_map (level : Int) (fields : List (String × Expr)) :
    fieldCodes level fields = fields.map (fieldCode level) := by
  induction fields with
  | nil => rfl
  | cons field fields ih => rw [fieldCodes, ih, List.map_cons, fieldCode]

mutual

/-- A clean expression is rendered as its code. -/
theorem render_eq_code : (expr : Expr) → expr.Clean → (level : Int) →
    expr.render level = .ok (String.ofList (expr.code level))
  | .absent, h, _ => by cases h.here
  | .bare, h, _ => by cases h.here
  | .ref name, _, level => by rw [render, code, String.ofList_toList]
  | .raw text, _, level => by rw [render, code, String.ofList_toList]
  | .call name args options, h, level => by
    have hargs := renderAll_eq_codes args (everywhere_call_iff.1 h).2 level
    rw [render, hargs]
    refine congrArg Except.ok (String.toList_inj.1 ?_)
    by_cases hempty : options.isEmpty = true
    · simp [code, constructorCode, optionCodes, hempty, String.toList_intercalate]
    · simp [code, constructorCode, optionCodes, hempty, String.toList_intercalate]
  | .apply callee args, h, level => by
    have hargs := renderAll_eq_codes args (everywhere_apply_iff.1 h).2 level
    rw [render, hargs]
    refine congrArg Except.ok (String.toList_inj.1 ?_)
    simp [code, String.toList_intercalate]
  | .array items, h, level => by
    have hitems := renderAll_eq_codes items (everywhere_array_iff.1 h).2 level
    rw [render, hitems]
    refine congrArg Except.ok (String.toList_inj.1 ?_)
    simp [code, String.toList_intercalate]
  | .object fields, h, level => by
    rw [render, renderFields_eq_codes fields (clean_object_iff.1 h) level]
    cases fields with
    | nil => rfl
    | cons field rest =>
      change Except.ok ("\x7b\n" ++ ",\n".intercalate ((fieldCodes level (field :: rest)).map
        String.ofList) ++ "\n" ++ indentation level ++ "\x7d") = _
      refine congrArg Except.ok (String.toList_inj.1 ?_)
      simp [code, String.toList_intercalate]
  | .recursive name body, h, level => by
    rw [render, render_eq_code body (everywhere_recursive_iff.1 h).2 level]
    refine congrArg Except.ok (String.toList_inj.1 ?_)
    simp [code, constructorCode]

theorem renderAll_eq_codes : (exprs : List Expr) → (∀ expr ∈ exprs, expr.Clean) → (level : Int) →
    renderAll level exprs = .ok ((codes level exprs).map String.ofList)
  | [], _, _ => rfl
  | expr :: rest, h, level => by
    rw [renderAll, render_eq_code expr (h expr List.mem_cons_self) level,
      renderAll_eq_codes rest (fun other hmem => h other (List.mem_cons_of_mem _ hmem)) level]
    rfl

theorem renderFields_eq_codes : (fields : List (String × Expr)) →
    (∀ field ∈ fields, CleanField field) → (level : Int) →
    renderFields level fields = .ok ((fieldCodes level fields).map String.ofList)
  | [], _, _ => rfl
  | (name, value) :: rest, h, level => by
    obtain ⟨⟨hname, hvalue⟩, hrest⟩ := List.forall_mem_cons.1 h
    have hline : fieldLine level name (String.ofList (code (level + 1) value)) =
        String.ofList ((indentation (level + 1)).toList ++
          (name.toList ++ ':' :: ' ' :: code (level + 1) value)) := by
      have hne : name ≠ "" := by
        rintro rfl
        cases hname
      rw [← String.toList_inj]
      simp [fieldLine, hne]
    rw [renderFields, render_eq_code value hvalue (level + 1), fieldCodes, List.map_cons, ← hline,
      renderFields_eq_codes rest hrest level]
    rfl

end

end Expr

/-! ### Options -/

def entryCode (entry : String × OptionValue) : List Char :=
  entry.1.toList ++ ':' :: ' ' :: entry.2.render.toList

theorem Options.toList_render {options : Options} (h : options.isClean = true) :
    options.render.toList =
      '{' :: ' ' :: ([',', ' '].intercalate (options.map entryCode) ++ [' ', '}']) := by
  rw [render, String.toList_append, String.toList_append, String.toList_intercalate, List.map_map,
    List.map_congr_left (g := entryCode)]
  · simp
  · intro entry hmem
    have hname := (Bool.and_eq_true_iff.1 (List.all_eq_true.1 h entry hmem)).1
    change (renderKey entry.1 ++ ": " ++ entry.2.render).toList = entryCode entry
    rw [renderKey_of_isPlainName hname]
    simp [entryCode]

end Schemata
