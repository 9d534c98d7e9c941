import Waveform.Request

/-!
# Command line

Specializes one binding of a program in a file and prints it.
-/

namespace Waveform

namespace CommandLine

structure Arguments where
  entryPoint : Option String
  target : String
  usesPrelude : Bool
  format : String
  maxInlineDepth : Option Nat
  logs : Bool

def defaults : Arguments := ⟨none, "wave", true, "javascript", none, false⟩

def usage : String :=
  "Usage: waveform [OPTIONS] <ENTRY_POINT>\n\n" ++
  "Arguments:\n" ++
  "  <ENTRY_POINT>                  Program to evaluate\n\n" ++
  "Options:\n" ++
  "      --target <TARGET>          Top-level binding to specialize [default: wave]\n" ++
  "      --no-prelude               Evaluate the program without the sound library\n" ++
  "      --format <FORMAT>          Output format [default: javascript]\n" ++
  "      --max-inline-depth <COUNT> Maximum number of nested inlined calls\n" ++
  "      --log                      Log progress\n" ++
  "  -h, --help                     Print help"

/-- The name and the value of an option that is written in one word. -/
def splitOption (word : String) : String × Option String :=
  match word.toList.span (· != '=') with
  | (name, _ :: value) => (String.ofList name, some (String.ofList value))
  | (name, []) => (String.ofList name, none)

def setValue (a : Arguments) (name value : String) : Except String Arguments :=
  match name with
  | "--target" => pure { a with target := value }
  | "--format" =>
    match Format.ofName? value with
    | some _ => pure { a with format := value }
    | none => throw ("invalid value for '--format': " ++ (RequestError.unknownFormat value).message)
  | "--max-inline-depth" =>
    match value.toNat? with
    | some n => pure { a with maxInlineDepth := some n }
    | none => throw ("invalid value '" ++ value ++ "' for '--max-inline-depth'")
  | _ => throw ("unexpected argument '" ++ name ++ "' found")

/-- Reads the words of a command line. After two dashes no word is an option. -/
def parse (a : Arguments) (optionsEnded : Bool) : List String → Except String Arguments
  | [] => pure a
  | word :: rest =>
    if optionsEnded || word == "-" || ! word.startsWith "-" then
      match a.entryPoint with
      | none => parse { a with entryPoint := some word } optionsEnded rest
      | some _ => throw ("unexpected argument '" ++ word ++ "' found")
    else
      match word, rest with
      | "--", rest => parse a true rest
      | "--no-prelude", rest => parse { a with usesPrelude := false } false rest
      | "--log", rest => parse { a with logs := true } false rest
      | word, rest =>
        match splitOption word, rest with
        | (name, some value), rest => do parse (← setValue a name value) false rest
        | (name, none), value :: rest => do parse (← setValue a name value) false rest
        | (name, none), [] => throw ("a value is required for '" ++ name ++ "'")

def Arguments.request (a : Arguments) (path source : String) : Request where
  source := source
  path := some path
  target := a.target
  usesPrelude := a.usesPrelude
  running := if a.logs then .tracing else .standard
  options :=
    { SpecializationOptions.standard with
      maxInlineDepth := a.maxInlineDepth.getD SpecializationOptions.standard.maxInlineDepth }

def report (activity cause : String) : String :=
  "Error: " ++ activity ++ "\n\nCaused by:\n    " ++ cause

end CommandLine

end Waveform

open Waveform in
def main (words : List String) : IO UInt32 := do
  if words.contains "--help" || words.contains "-h" then
    IO.println CommandLine.usage
    return 0
  match CommandLine.parse CommandLine.defaults false words with
  | .error problem =>
    IO.eprintln ("error: " ++ problem ++ "\n\n" ++ CommandLine.usage)
    return 2
  | .ok arguments =>
    match arguments.entryPoint with
    | none =>
      IO.eprintln ("error: an entry point is required\n\n" ++ CommandLine.usage)
      return 2
    | some path =>
      match ← (IO.FS.readFile path).toBaseIO with
      | .error e =>
        IO.eprintln (CommandLine.report ("Failed to read path " ++ path) (toString e))
        return 1
      | .ok source =>
        match (arguments.request path source).answer arguments.format with
        | .ok output =>
          if arguments.logs then IO.eprintln ("Specialized " ++ arguments.target)
          IO.println output
          return 0
        | .error e =>
          IO.eprintln (CommandLine.report ("Failed to process " ++ path) e.message)
          return 1
