import Waveform.Number.Mathematics
import Waveform.Report.Tree
import Waveform.Specialize.Specialization

/-!
# Output

A specialization as text: as a program, or as a document that holds its tree.
-/

namespace Waveform

inductive Format
  | program
  | document
  deriving DecidableEq, Repr

def Format.ofName? (name : String) : Option Format :=
  match name.toLower with
  | "javascript" | "js" => some program
  | "json" => some document
  | _ => none

def Specialization.toDocument {ν : Type} (number : ν → Document) : Specialization ν → Document
  | value l => .record [("type", .string "Value"), ("value", l.toDocument number)]
  | function d => .record [("type", .string "Function"), ("value", d.toDocument number)]

def Specialization.render (s : Specialization Float) : Format → String
  | .program => s.text
  | .document => (s.toDocument fun x => .numeral (Double.write .document x)).text

end Waveform
