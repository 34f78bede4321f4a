import BitLayout.Size
import BitLayout.Text.Encoding

/-!
# Size reports

A printed breakdown of the size of a layout and of its fields. A report ends at the first line that
cannot be printed: a size may have too many digits and a name may have no bytes.

## Main definitions

* `Report`: lines, and the error that cut them short if one did
* `Layout.report`: the breakdown of one layout under a name
* `Report.ofLayouts`: the breakdowns of several layouts under a heading
-/

namespace BitLayout

/-- Why a report ends early. -/
inductive ReportError where
  | layout (error : LayoutError)
  /-- A line with a numeral that is too long. -/
  | tooManyDigits
  /-- A line that has no bytes. -/
  | unencodable (fault : EncodeFault)

/-- The wording of a reason. -/
def ReportError.message : ReportError → Wording
  | .layout error => error.message
  | .tooManyDigits => BitLayout.tooManyDigits []
  | .unencodable fault => fault.message

/-- Lines that can be printed, and the error that cut them short if one did. -/
structure Report where
  lines : List Text
  error : Option ReportError

namespace Report

/-- Nothing, with no error. -/
def empty : Report := ⟨[], none⟩

/-- A report that ends before its first line. -/
def failed (error : ReportError) : Report := ⟨[], some error⟩

/-- A single line, if it can be printed. -/
def line (content : Wording) : Report :=
  match content.text? with
  | none => failed .tooManyDigits
  | some t =>
    match Encoding.utf8.encode t with
    | .error fault => failed (.unencodable fault)
    | .ok _ => ⟨[t], none⟩

/-- The lines as one text. -/
def text (report : Report) : Text := report.lines.flatMap (· ++ "\n")

/-- One report after another, unless the first was cut short. -/
def andThen (first second : Report) : Report :=
  match first.error with
  | some _ => first
  | none => ⟨first.lines ++ second.lines, second.error⟩

/-- A line with nothing in it. -/
def blank : Wording := .ofText []

/-- Lines one after another. -/
def ofLines (lines : List Wording) : Report :=
  lines.foldr (fun content rest => (line content).andThen rest) empty

/-- The column at which the entries of a report end. -/
def entryWidth : Nat := 54

/-- The indentation of the entries of a report. -/
def indentation : Text := Text.repeated 8 " "

/-- The number, name and size of a field, joined by dots up to a fixed width. -/
def fieldLine (number : Nat) (name : Text) (size : Option Integer) : Wording :=
  let description := Text.ofNat number ++ ". " ++ name
  let amount : Wording :=
    match size with
    | some bits => bits.written ++ " bits"
    | none => "dynamic"
  let dots := max 1 (entryWidth - description.length - amount.shown.length)
  indentation ++ description ++ Text.repeated dots "." ++ amount

/-- The lines of fields, of which the first has the given number. -/
def fieldLines (number : Nat) : FieldSizes → List Wording
  | [] => []
  | (name, size) :: rest => fieldLine number name size :: fieldLines (number + 1) rest

/-- A title between rules of the given length. -/
def ruled (rule : Text) (length : Nat) (title : Text) : Text :=
  Text.repeated length rule ++ " " ++ title ++ " " ++ Text.repeated length rule

/-- The size of a layout, or why it has none. -/
def sizeLines (layout : Layout) : Report :=
  match layout.encodedBits with
  | .ok bits =>
    let bytes := (bits.toInt + 7) / 8
    let filling := bytes * 8 - bits.toInt
    let total : Wording :=
      "Encoded size: " ++ Wording.ofInt bytes ++ " bytes / " ++ bits.written ++ " bits"
    let rest : Wording :=
      indentation ++ "padding to full byte" ++ Text.repeated 19 "." ++ Wording.ofInt filling
    ofLines ((if 0 < filling then [total, rest] else [total]) ++ [blank])
  | .error (.slotWithoutLayout typeName) => failed (.layout (.slotWithoutLayout typeName))
  | .error error => ofLines ["Size depends on decoded data: " ++ error.message, blank]

/-- The sizes of the fields of a sequence; nothing for another layout. -/
def fieldsOf (layout : Layout) : Report :=
  match layout with
  | .sequence slots =>
    (line (ruled "-" 27 "Fields")).andThen
      (match fieldSizesOfSlots [] slots with
        | .ok sizes => ofLines (fieldLines 1 sizes ++ [blank])
        | .error error => failed (.layout error))
  | _ => empty

end Report

/-- The breakdown of a layout under a name. -/
def Layout.report (name : Text) (layout : Layout) : Report :=
  ((Report.line (Report.ruled "=" 19 (name ++ " (" ++ layout.kind.name ++ ")"))).andThen
    (Report.sizeLines layout)).andThen (Report.fieldsOf layout)

namespace Report

/-- The lines before the breakdowns of a number of layouts. -/
def heading (count : Nat) : Report :=
  ofLines [ruled "|" 7 "bitschema: Declarative Binary Layouts",
    Text.ofNat count ++ (if count = 1 then (" schema" : Text) else " schemas") ++ " loaded.",
    "Field sizes are in bits unless otherwise noted.", blank]

/-- The breakdowns of layouts one after another, under a heading. -/
def ofLayouts (layouts : List (Text × Layout)) : Report :=
  layouts.foldl (fun report (name, layout) => report.andThen (layout.report name))
    (heading layouts.length)

end Report

end BitLayout
