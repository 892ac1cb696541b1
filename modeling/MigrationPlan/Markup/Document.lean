import MigrationPlan.Datum.Basic

/-!
# Markup/Document — documents and how one overlays another

A document is a tree of scalars, sequences and mappings.  `Document.overlay` lays one document over
another: mappings are merged key by key, what is missing in the upper document leaves the lower one
in place, and everything else is replaced.  A record has fields like a mapping, but is no mapping;
it is not merged but replaced.
-/

namespace MigrationPlan

/-- A document.  Text may be broken, that is, some of it is no character; bytes are kept as the text
that they spell, if they do.  No text is read as a record; a program may hand one over. -/
inductive Document where
  | missing
  | number (x : Number)
  | text (s : String)
  | brokenText
  | bytes (text : Option String)
  | time (s : String)
  | sequence (items : List Document)
  | mapping (fields : List (String × Document))
  | record (fields : List (String × Document))

/-- The fields of a mapping or a record. -/
abbrev Fields := List (String × Document)

namespace Fields

/-- The value under a key. -/
def get? (key : String) (fs : Fields) : Option Document :=
  fs.lookup key

/-- Puts a value under a key: in its place if the key is there, and at the end if not. -/
def put (key : String) (value : Document) : Fields → Fields
  | [] => [(key, value)]
  | (k, v) :: rest => if k = key then (k, value) :: rest else (k, v) :: put key value rest

end Fields

namespace Document

/-- A document that says nothing: a missing, zero or false value, an empty text or collection. -/
def isEmpty : Document → Bool
  | missing => true
  | number x => !x.truth
  | text s => s.isEmpty
  | brokenText => false
  | bytes s => s = some ""
  | time _ => false
  | sequence items => items.isEmpty
  | mapping fields => fields.isEmpty
  | record _ => false

/-- An entry as a document. -/
def ofEntry : Entry → Document
  | .missing => missing
  | .number x => number x
  | .text s => text s

mutual

/-- A value as a document. -/
def ofDatum : Datum → Document
  | .leaf e => ofEntry e
  | .node parts => sequence (ofData parts)

def ofData : List Datum → List Document
  | [] => []
  | p :: rest => ofDatum p :: ofData rest

end

mutual

/-- The upper document laid over the lower one. -/
def overlay (lower : Document) : (upper : Document) → Document
  | mapping fields =>
    match lower with
    | mapping base => mapping (overlayFields base fields)
    | _ => mapping fields
  | upper => upper

/-- The fields of the upper mapping laid, one after the other, over those of the lower one; missing
values are passed over. -/
def overlayFields (base : Fields) : (fields : Fields) → Fields
  | [] => base
  | (key, value) :: rest =>
    match value with
    | missing => overlayFields base rest
    | value =>
      let merged := match base.get? key with
        | some old => overlay old value
        | none => value
      overlayFields (base.put key merged) rest

end

end Document

end MigrationPlan
