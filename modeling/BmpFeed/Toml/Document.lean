import BmpFeed.Toml.Lexeme
import BmpFeed.Toml.Tree

/-!
# TOML documents

`Toml.parse?` reads a document of TOML 1.0: lines with a header, an assignment, a comment or
nothing. A byte order mark in front of the document is skipped.
-/

namespace BmpFeed.Toml

open Lexeme

/-- The characters that were read between two rests. -/
def written (before after : List Char) : String :=
  String.ofList (before.take (before.length - after.length))

/-- Skips blanks, comments and line ends. -/
def skipLines : Nat → List Char → List Char
  | 0, cs => cs
  | fuel + 1, cs =>
    let cs := skipComment (skipBlanks cs)
    match newline? cs with
    | some rest => skipLines fuel rest
    | none => cs

/-- A number or a moment. -/
def number : Reader Toml := fun cs =>
  match readMoment cs with
  | some (_, rest) => some (.moment (plainMoment (written cs rest).toList), rest)
  | none =>
    match readDecimal cs with
    | some (_, rest) => some (.float (written cs rest), rest)
    | none =>
      match readSpecial cs with
      | some (_, rest) => some (.float (written cs rest), rest)
      | none => (readInteger cs).map fun (n, rest) => (.integer n, rest)

mutual

/-- A value; `depth` containers may still be opened. -/
def value : Nat → Nat → List Char → Option (Toml × List Char)
  | 0, _, _ => none
  | fuel + 1, depth, cs =>
    match cs with
    | '[' :: rest =>
      if depth = 0 then none
      else (items fuel (depth - 1) rest).map fun (vs, rest) => (.array vs, rest)
    | '{' :: rest =>
      if depth = 0 then none
      else
        match skipBlanks rest with
        | '}' :: rest => some (.table [], rest)
        | rest =>
          (pairs fuel (depth - 1) [] rest).map fun (e, rest) =>
            (.table (Tree.freezeEntries e), rest)
    | '"' :: _ | '\'' :: _ => (readText cs).map fun (s, rest) => (.text s, rest)
    | 't' :: 'r' :: 'u' :: 'e' :: rest => some (.boolean true, rest)
    | 'f' :: 'a' :: 'l' :: 's' :: 'e' :: rest => some (.boolean false, rest)
    | _ => number cs

/-- The items of an array up to and including its end. -/
def items : Nat → Nat → List Char → Option (List Toml × List Char)
  | 0, _, _ => none
  | fuel + 1, depth, cs =>
    match skipLines cs.length cs with
    | ']' :: rest => some ([], rest)
    | cs =>
      (value fuel depth cs).bind fun (v, rest) =>
        match skipLines rest.length rest with
        | ',' :: rest => (items fuel depth rest).map fun (vs, rest) => (v :: vs, rest)
        | ']' :: rest => some ([v], rest)
        | _ => none

/-- The assignments of an inline table up to and including its end. -/
def pairs : Nat → Nat → Tree.Entries → List Char → Option (Tree.Entries × List Char)
  | 0, _, _, _ => none
  | fuel + 1, depth, entries, cs =>
    (key cs).bind fun (path, rest) =>
      match rest with
      | '=' :: rest =>
        (value fuel depth (skipBlanks rest)).bind fun (v, rest) =>
          (Tree.put (.value v) .header false path entries).bind fun entries =>
            match skipBlanks rest with
            | ',' :: rest => pairs fuel depth entries rest
            | '}' :: rest => some (entries, rest)
            | _ => none
      | _ => none

end

/-- A document that is being read: its tables so far and the header that is open. -/
structure Document where
  root : Tree.Entries := []
  /-- The path and the name of the open table, if a header has been read. -/
  path : Option (List String × String) := none

namespace Document

/-- The path to a header's table and its name. -/
def splitPath (path : List String) : Option (List String × String) :=
  path.getLast?.map fun name => (path.dropLast, name)

def openHeader (d : Document) (isArray : Bool) (path : List String) : Option Document :=
  (splitPath path).bind fun (front, name) =>
    (Tree.atPath (if isArray then Tree.openItem name else Tree.openTable name) front d.root).map
      fun root => { root, path := some (front, name) }

def assign (d : Document) (key : List String) (v : Toml) : Option Document :=
  match d.path with
  | none => (Tree.put (.value v) .header false key d.root).map fun root => { d with root }
  | some (front, name) =>
    (Tree.atPath (Tree.putInside (.value v) key name) front d.root).map fun root => { d with root }

end Document

/-- What is left of a line after its header or assignment: nothing but blanks and a comment. -/
def endOfLine? (cs : List Char) : Option (List Char) :=
  match skipComment (skipBlanks cs) with
  | [] => some []
  | cs => newline? cs

/-- The rest of a header after its opening brackets. -/
def header (isArray : Bool) (d : Document) (cs : List Char) : Option (Document × List Char) :=
  (key cs).bind fun (path, rest) =>
    match isArray, rest with
    | true, ']' :: ']' :: rest | false, ']' :: rest =>
      (d.openHeader isArray path).map fun d => (d, rest)
    | _, _ => none

/-- One line of a document that is not blank. -/
def line (d : Document) (cs : List Char) : Option (Document × List Char) :=
  match cs with
  | '[' :: '[' :: rest => header true d rest
  | '[' :: rest => header false d rest
  | _ =>
    (key cs).bind fun (path, rest) =>
      match rest with
      | '=' :: rest =>
        let rest := skipBlanks rest
        (value (rest.length + 1) maxParts rest).bind fun (v, rest) =>
          (d.assign path v).map fun d => (d, rest)
      | _ => none

def lines : Nat → Document → List Char → Option Document
  | 0, _, _ => none
  | fuel + 1, d, cs =>
    match skipLines cs.length cs with
    | [] => some d
    | cs =>
      (line d cs).bind fun (d, rest) =>
        (endOfLine? rest).bind fun rest => lines fuel d rest

/-- The table of a document. -/
def parse? (s : String) : Option Toml :=
  let cs := match s.toList with
    | '\ufeff' :: cs => cs
    | cs => cs
  (lines (cs.length + 1) {} cs).map fun d => .table (Tree.freezeEntries d.root)

end BmpFeed.Toml
