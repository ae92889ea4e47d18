import EnumNames.Proofs.Go.Literal
import EnumNames.Proofs.Policy.Document

/-! Policies written as documents. A text is written as a basic string with its marks and controls
escaped, so it is one line of the document whatever it holds, and the document reads back as the
policy in either order of its lines and with any lines that say nothing around them. -/
namespace EnumNames.Toml

/-- A character as it is written in a basic string. -/
def escape (c : Char) : List Char :=
  if c = '"' ∨ c = '\\' then ['\\', c]
  else if Go.isControl c then '\\' :: 'u' :: Go.hex4 c.toNat
  else [c]

/-- A text as a basic string. -/
def basicQuoted (text : String) : String :=
  "\"" ++ .ofList (text.toList.flatMap escape) ++ "\""

theorem isLineChar_of_isControl_eq_false {c : Char} (visible : Go.isControl c = false) :
    isLineChar c := by
  simp only [Go.isControl, Bool.or_eq_false_iff, Bool.and_eq_false_iff, decide_eq_false_iff_not]
    at visible
  have blank : ' ' ≤ c := by
    change 0x20 ≤ c.toNat
    omega
  have delete : c ≠ '\x7f' := by
    rintro rfl
    revert visible
    decide
  simp [isLineChar, blank, delete]

/-- What is written for a character spells it, in front of any text. -/
theorem spelled_escape (c : Char) (rest : List Char) : Spelled (escape c ++ rest) c rest := by
  unfold escape
  by_cases mark : c = '"' ∨ c = '\\'
  · rw [if_pos mark]
    apply Spelled.letter
    rcases mark with rfl | rfl
    · rfl
    · rfl
  · rw [if_neg mark]
    obtain ⟨quote, slash⟩ := not_or.mp mark
    by_cases control : Go.isControl c
    · rw [if_pos control]
      have small := Go.toNat_lt_of_isControl control
      refine .number ?_ (Go.isHexDigit_hex4 _) (Go.ofDigits_hex4 (by omega))
      simp [Go.hex4]
    · rw [if_neg control]
      apply Spelled.raw
      · exact isLineChar_of_isControl_eq_false (Bool.eq_false_iff.mpr control)
      · exact quote
      · exact slash

theorem basic_flatMap_escape (text rest : List Char) :
    Basic (text.flatMap escape ++ '"' :: rest) text rest := by
  induction text with
  | nil => exact .close
  | cons c text ih =>
    rw [List.flatMap_cons, List.append_assoc]
    exact .char (spelled_escape c _) ih

theorem quoted_basicQuoted (text : String) (rest : List Char) :
    Quoted ((basicQuoted text).toList ++ rest) text rest := by
  have written : (basicQuoted text).toList ++ rest =
      '"' :: (text.toList.flatMap escape ++ '"' :: rest) := by
    simp [basicQuoted]
  rw [written]
  have single := OneLine.basic (basic_flatMap_escape text.toList rest)
  rw [String.ofList_toList] at single
  exact .oneLine single

/-- The two ways to end a line. -/
inductive Newline
  | lineFeed
  | both
deriving DecidableEq, Repr

def Newline.text : Newline → String
  | .lineFeed => "\n"
  | .both => "\r\n"

theorem Newline.lineEnd (newline : Newline) (rest : List Char) :
    LineEnd (newline.text.toList ++ rest) rest := by
  cases newline with
  | lineFeed => exact .lineFeed
  | both => exact .both

/-- A line that says nothing: blanks, and perhaps a comment. -/
structure Remark where
  blanks : List Char
  comment : Option (List Char)
  blank : blanks.all isBlank
  inside : ∀ chars ∈ comment, chars.all isLineChar

namespace Remark

def text (remark : Remark) : String :=
  .ofList (remark.blanks ++ (remark.comment.map ('#' :: ·)).getD [])

theorem tail (remark : Remark) {rest : List Char} (ends : Ends rest) :
    Tail (remark.text.toList ++ rest) rest := by
  obtain ⟨blanks, comment, blank, inside⟩ := remark
  simp only [text, String.toList_ofList, List.append_assoc]
  induction blanks with
  | nil =>
    cases comment with
    | none => exact .none ends
    | some chars => exact .comment (inside chars rfl) ends
  | cons c blanks ih =>
    rw [List.all_cons, Bool.and_eq_true] at blank
    exact .blank blank.1 (ih blank.2)

end Remark
end EnumNames.Toml

namespace EnumNames.Policy
open Toml

/-- One of the two parts of a policy. -/
inductive Part
  | trimPrefix (text : String)
  | lineComment (value : Bool)
deriving DecidableEq, Repr

namespace Part

/-- What is written about a part under its key. -/
def given : Part → String × Value
  | .trimPrefix text => (trimKey, .string text)
  | .lineComment value => (commentKey, .boolean value)

/-- The line of a part. -/
def text : Part → String
  | .trimPrefix text => trimKey ++ " = " ++ basicQuoted text
  | .lineComment value => commentKey ++ " = " ++ toString value

theorem fits (part : Part) : Fits (inDocument part.given) := by
  cases part with
  | trimPrefix text => exact .inl ⟨rfl, text, rfl⟩
  | lineComment value => exact .inr ⟨rfl, value, rfl⟩

theorem exists_line (limits : Limits) (part : Part) {rest : List Char} (ends : Ends rest) :
    ∃ statement, Line limits (part.text.toList ++ rest) [statement] rest ∧
      statement.Puts part.given := by
  have alone {key written : String} {value : Value} (nonempty : key.toList ≠ [])
      (bare : key.toList.all isBareKeyChar) (scalar : Scalar (written.toList ++ rest) value rest) :
      ∃ statement, Line limits ((key ++ " = " ++ written).toList ++ rest) [statement] rest ∧
        statement.Puts (key, value) := by
    obtain ⟨statement, stated, puts⟩ := @exists_stated limits rest key nonempty bare _ _ scalar
    refine ⟨statement, ?_, puts⟩
    simpa using Line.statement .none stated (.none ends)
  cases part with
  | trimPrefix text =>
    exact alone (by decide) (by decide) (.string (quoted_basicQuoted text rest))
  | lineComment value => exact alone (by decide) (by decide) (.boolean value)

end Part

/-- A line of a written policy. -/
inductive Row
  | part (part : Part)
  | remark (remark : Remark)

namespace Row

def text : Row → String
  | .part given => given.text
  | .remark skipped => skipped.text

def parts : Row → List Part
  | .part given => [given]
  | .remark _ => []

theorem exists_line (limits : Limits) (row : Row) {rest : List Char} (ends : Ends rest) :
    ∃ statements, Line limits (row.text.toList ++ rest) statements rest ∧
      List.Forall₂ Statement.Puts statements (row.parts.map Part.given) := by
  cases row with
  | part given =>
    obtain ⟨statement, line, puts⟩ := given.exists_line limits ends
    exact ⟨[statement], line, .cons puts .nil⟩
  | remark skipped => exact ⟨[], .empty (skipped.tail ends), .nil⟩

@[simp] theorem flatMap_parts_remarks (remarks : List Remark) :
    (remarks.map Row.remark).flatMap parts = [] := by
  simp [List.flatMap_map, parts]

end Row

/-- Lines with line ends between them. -/
def document (newline : Newline) (rows : List Row) : String :=
  newline.text.intercalate (rows.map Row.text)

theorem exists_lines (limits : Limits) (newline : Newline) (rows : List Row) :
    ∃ statements, Lines limits (document newline rows).toList statements ∧
      List.Forall₂ Statement.Puts statements ((rows.flatMap Row.parts).map Part.given) := by
  induction rows with
  | nil => exact ⟨[], .last (.empty (.none .text)), .nil⟩
  | cons row rows ih =>
    cases rows with
    | nil =>
      obtain ⟨statements, line, puts⟩ := row.exists_line limits .text
      refine ⟨statements, .last ?_, by simpa using puts⟩
      simpa [document] using line
    | cons next rows =>
      obtain ⟨behind, lines, others⟩ := ih
      have lineEnd := newline.lineEnd (document newline (next :: rows)).toList
      obtain ⟨statements, line, puts⟩ := row.exists_line limits (.line lineEnd)
      have written : (document newline (row :: next :: rows)).toList =
          row.text.toList ++ (newline.text.toList ++ (document newline (next :: rows)).toList) := by
        simp [document]
      rw [written, List.flatMap_cons, List.map_append]
      exact ⟨statements ++ behind, .more line lineEnd lines, List.rel_append puts others⟩

/-- Lines that say nothing, a part, and further lines. -/
def above (remarks : List Remark) (part : Part) (rows : List Row) : List Row :=
  remarks.map .remark ++ .part part :: rows

@[simp] theorem flatMap_parts_above (remarks : List Remark) (part : Part) (rows : List Row) :
    (above remarks part rows).flatMap Row.parts = part :: rows.flatMap Row.parts := by
  simp [above, Row.parts]

section
variable {Place : Type} {decoder : Decoder Place Policy} {limits : Limits} (fills : decoder.Fills)
  (parses : decoder.Parses limits)
include fills parses

/-- Lines that have no part twice are read as the policy that their parts describe. -/
theorem read_rows (newline : Newline) {rows : List Row} {parts : List Part} {policy : Policy}
    (only : rows.flatMap Row.parts = parts)
    (nodup : ((parts.map Part.given).map Prod.fst).Nodup)
    (described : Describes ((parts.map Part.given).map inDocument) policy) :
    read decoder (document newline rows) = .ok policy := by
  obtain ⟨statements, lines, puts⟩ := exists_lines limits newline rows
  rw [only] at puts
  have fits : ∀ entry ∈ (parts.map Part.given).map inDocument, Fits entry := by
    rw [List.map_map]
    intro entry member
    obtain ⟨part, _, rfl⟩ := List.mem_map.mp member
    exact part.fits
  obtain ⟨found, accepted, describes⟩ :=
    read_of_fits fills parses (lines.document puts nodup) fits
  rw [accepted, describes.eq fits described]

end

/-- A policy that is written as a document is read back, with its two lines in either order and with
lines that say nothing before, between and behind them. A line that is left out leaves the part of
the plain policy. -/
theorem read_written {Place : Type} {decoder : Decoder Place Policy} {limits : Limits}
    (fills : decoder.Fills) (parses : decoder.Parses limits) (text : String) (value : Bool)
    (newline : Newline) (before between behind : List Remark) :
    read decoder (document newline (above before (.trimPrefix text)
        (above between (.lineComment value) (behind.map .remark)))) = .ok ⟨text, value⟩ ∧
      read decoder (document newline (above before (.lineComment value)
        (above between (.trimPrefix text) (behind.map .remark)))) = .ok ⟨text, value⟩ ∧
      read decoder (document newline (above before (.lineComment value) (behind.map .remark))) =
        .ok ⟨"", value⟩ ∧
      read decoder (document newline (above before (.trimPrefix text) (behind.map .remark))) =
        .ok ⟨text, false⟩ := by
  have trim : commentKey ≠ trimKey := commentKey_ne_trimKey
  refine ⟨?_, ?_, ?_, ?_⟩
  · apply read_rows fills parses newline
    · rw [flatMap_parts_above, flatMap_parts_above, Row.flatMap_parts_remarks]
    · simp [Part.given, trim.symm]
    · constructor <;> simp [Part.given, inDocument, trim, trim.symm]
  · apply read_rows fills parses newline
    · rw [flatMap_parts_above, flatMap_parts_above, Row.flatMap_parts_remarks]
    · simp [Part.given, trim]
    · constructor <;> simp [Part.given, inDocument, trim, trim.symm]
  · apply read_rows fills parses newline
    · rw [flatMap_parts_above, Row.flatMap_parts_remarks]
    · simp [Part.given]
    · constructor <;> simp [Part.given, inDocument, trim.symm]
  · apply read_rows fills parses newline
    · rw [flatMap_parts_above, Row.flatMap_parts_remarks]
    · simp [Part.given]
    · constructor <;> simp [Part.given, inDocument, trim]

/-- A text that looks like a closed string with a comment, a table and a second line behind it. The
comment above it looks like its line. -/
theorem read_written_marks :
    ofToml ("# trim_prefix = \"a\"\n" ++
        "trim_prefix = \"\\\"#\\\\[t]\\u000aline_comment = 1\\u0009\\u007f😀\"\n" ++
        " \t\nline_comment = true\n") =
      .ok ⟨"\"#\\[t]\nline_comment = 1\t\x7f😀", true⟩ := by
  have read := (read_written (fills_decoder limits) (parses_decoder limits)
    "\"#\\[t]\nline_comment = 1\t\x7f😀" true .lineFeed
    [⟨[], some " trim_prefix = \"a\"".toList, by decide, by rintro _ ⟨⟩; decide⟩]
    [⟨[' ', '\t'], none, by decide, nofun⟩] [⟨[], none, by decide, nofun⟩]).1
  exact read

end EnumNames.Policy
