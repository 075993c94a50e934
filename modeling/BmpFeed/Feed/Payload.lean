import BmpFeed.Json.Reader
import BmpFeed.Json.Printer

/-!
# Payloads

A payload is JSON: an array of row objects, an object with a `rows` array whose other scalar members
apply to every row that does not name them itself, or a single row object. `decode` gives one record
per row or the reason why the payload has no such shape; one bad row rejects the whole payload.
-/

namespace BmpFeed

/-- One decoded row. -/
abbrev Record := Json.Fields

inductive PayloadError
  | malformed
  /-- The payload is this value, neither an array nor an object. -/
  | notRows (value : Json)
  | rowsNotArray
  /-- A row is this value and no object. -/
  | rowNotObject (value : Json)

namespace PayloadError

def message : PayloadError → String
  | malformed => "invalid JSON payload"
  | notRows v => "unexpected payload shape: expected an array or object, got " ++ v.render
  | rowsNotArray => "unexpected payload shape: 'rows' is not an array"
  | rowNotObject v => "unexpected payload shape: row is not an object: " ++ v.render

end PayloadError

namespace Record

/-- The record of a row. -/
def ofJson : Json → Except PayloadError Record
  | .object fields => .ok fields
  | v => .error (.rowNotObject v)

/-- The record with those of the inherited members that it does not name itself. -/
def inherit (inherited : Json.Fields) (r : Record) : Record :=
  inherited.foldl (fun r f => if Json.Fields.has r f.1 then r else Json.Fields.put f.1 f.2 r) r

/-- The records of a list of rows; the first row that is no object rejects all. -/
def ofRows (f : Record → Record) : List Json → Except PayloadError (List Record)
  | [] => .ok []
  | row :: rows => do
    let r ← ofJson row
    let rs ← ofRows f rows
    .ok (f r :: rs)

/-- The records of a payload's value. -/
def ofValue : Json → Except PayloadError (List Record)
  | .array rows => ofRows id rows
  | .object fields =>
    match Json.Fields.get? fields "rows" with
    | some (.array rows) =>
      ofRows (inherit ((Json.Fields.erase fields "rows").filter fun f => f.2.isScalar)) rows
    | some _ => .error .rowsNotArray
    | none => .ok [fields]
  | v => .error (.notRows v)

def decode (payload : String) : Except PayloadError (List Record) :=
  match Json.parse? payload with
  | some v => ofValue v
  | none => .error .malformed

/-- A field as plain text; nothing when it is missing or null. -/
def text? (r : Record) (name : String) : Option String :=
  match Json.Fields.get? r name with
  | none | some .null => none
  | some (.text s) => some s
  | some v => some v.render

end Record

end BmpFeed
