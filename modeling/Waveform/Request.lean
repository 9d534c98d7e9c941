import Waveform.Prelude
import Waveform.Report.Output
import Waveform.Source.Program

/-!
# Requests

The whole way from the text of a program to the text of a specialization.
-/

namespace Waveform

structure Request where
  source : String
  /-- What the text is called in errors. -/
  path : Option String
  target : String
  usesPrelude : Bool
  running : RunOptions
  options : SpecializationOptions

inductive RequestError
  | unknownFormat (name : String)
  | source (error : Source.Error)
  | specialization (target : String) (error : SpecializationError Float)

def RequestError.message : RequestError → String
  | unknownFormat name => "Unknown format: " ++ name
  | source error => "Failed to parse source: " ++ error.message
  | specialization target error => "Failed to specialize " ++ target ++ ": " ++ error.message

namespace Request

/-- The program of the request, with the library in front of it if it is asked for. -/
def text (r : Request) : String :=
  if r.usesPrelude then Prelude.before r.source else r.source

def specialize (r : Request) : Except RequestError (Specialization Float) := do
  let program ← (Program.ofText r.text r.path).mapError .source
  (program.specialize r.target r.running r.options).mapError (.specialization r.target)

/-- The specialization as text. A format that is not known is refused before anything is read. -/
def answer (r : Request) (format : String) : Except RequestError String :=
  match Format.ofName? format with
  | none => throw (.unknownFormat format)
  | some f => return (← r.specialize).render f

end Request

end Waveform
