import Waveform.Text.Quoted

/-!
# Documents

Nested data with named fields, and their text: one entry a line, two spaces of indentation for
each level, fields in the order in which they are given.
-/

namespace Waveform

inductive Document
  | null
  | boolean (value : Bool)
  /-- A number, already written out. -/
  | numeral (text : String)
  | string (value : String)
  | list (items : List Document)
  | record (fields : List (String × Document))

namespace Document

/-- A record whose only field says which of several cases its content belongs to. -/
def tagged (name : String) (content : Document) : Document :=
  record [(name, content)]

def strings (items : List String) : Document :=
  list (items.map string)

def newline (depth : Nat) : String :=
  "\n" ++ String.ofList (List.replicate (2 * depth) ' ')

/-- Puts entries between brackets, each on a line of its own; no entries need no lines. -/
def bracketed (opening closing : String) (depth : Nat) (entries : List String) : String :=
  if entries.isEmpty then opening ++ closing
  else
    opening ++ ",".intercalate (entries.map (newline (depth + 1) ++ ·)) ++ newline depth ++ closing

mutual

def render (depth : Nat) : Document → String
  | null => "null"
  | boolean true => "true"
  | boolean false => "false"
  | numeral text => text
  | string value => quote value
  | list items => bracketed "[" "]" depth (renderItems (depth + 1) items)
  | record fields => bracketed "\x7b" "\x7d" depth (renderFields (depth + 1) fields)

def renderItems (depth : Nat) : List Document → List String
  | [] => []
  | d :: ds => d.render depth :: renderItems depth ds

def renderFields (depth : Nat) : List (String × Document) → List String
  | [] => []
  | f :: fs => renderField depth f :: renderFields depth fs

def renderField (depth : Nat) : String × Document → String
  | (name, d) => quote name ++ ": " ++ d.render depth

end

def text (d : Document) : String :=
  d.render 0

end Document

end Waveform
