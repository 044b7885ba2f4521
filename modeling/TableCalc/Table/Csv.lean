/-
Comma-separated text, read byte by byte. A record ends at a line feed or a carriage return, and
empty lines are no records, which also makes the pair of the two a single end. A quote opens a
quoted field only as the field's first byte; inside one, a doubled quote stands for itself, and
after the closing quote the field goes on as an ordinary one. Nothing is trimmed, and a quote that
is never closed runs to the end of the input.

Reading never fails on structure. The one fault is a field that is not UTF-8, so the bytes are cut
into fields first and each field is decoded by itself.
-/

import TableCalc.Storage
import TableCalc.Table.Basic

namespace TableCalc.Csv

-- ============================================================== records

/-- Where the reader stands between two bytes. -/
inductive Place where
  /-- Before the first byte of a record. -/
  | recordStart
  /-- Before the first byte of a field. -/
  | fieldStart
  /-- In a field, outside quotes. -/
  | bare
  /-- Inside quotes. -/
  | quoted
  /-- After a quote that was met inside quotes. -/
  | quoteSeen
  deriving DecidableEq, Repr

/-- The state of the reader: where it stands, and what it has read, the latest first. -/
structure State where
  place : Place := .recordStart
  field : List UInt8 := []
  fields : List (List UInt8) := []
  records : List (List (List UInt8)) := []
  deriving DecidableEq, Repr

namespace State

/-- Closes the field. -/
def endField (s : State) : State :=
  { s with place := .fieldStart, field := [], fields := s.field.reverse :: s.fields }

/-- Closes the field and the record. -/
def endRecord (s : State) : State :=
  let t := s.endField
  { t with place := .recordStart, fields := [], records := t.fields.reverse :: t.records }

/-- Adds a byte to the field. -/
def keep (s : State) (place : Place) (b : UInt8) : State :=
  { s with place, field := b :: s.field }

end State

/-- Whether a byte ends a record. -/
def endsRecord (b : UInt8) : Bool := b == 0x0A || b == 0x0D

/-- One byte outside quotes: it ends the field, or the record, or belongs to the field. -/
def stepBare (s : State) (b : UInt8) : State :=
  if b == 0x2C then s.endField
  else if endsRecord b then s.endRecord
  else s.keep .bare b

/-- One byte at the start of a field, where alone a quote opens a quoted field. -/
def stepFieldStart (s : State) (b : UInt8) : State :=
  if b == 0x22 then { s with place := .quoted } else stepBare s b

/-- The reader's step on one byte. -/
def step (s : State) (b : UInt8) : State :=
  match s.place with
  | .recordStart => if endsRecord b then s else stepFieldStart s b
  | .fieldStart => stepFieldStart s b
  | .bare => stepBare s b
  | .quoted => if b == 0x22 then { s with place := .quoteSeen } else s.keep .quoted b
  | .quoteSeen => if b == 0x22 then s.keep .quoted b else stepBare s b

/-- The end of the input ends a record that has begun. -/
def State.finish (s : State) : List (List (List UInt8)) :=
  (if s.place = .recordStart then s else s.endRecord).records.reverse

/-- The bytes without a byte order mark in front. -/
def dropMark : List UInt8 → List UInt8
  | 0xEF :: 0xBB :: 0xBF :: rest => rest
  | bytes => bytes

/-- The records of a text, each field as its bytes. -/
def recordsOf (bytes : List UInt8) : List (List (List UInt8)) :=
  ((dropMark bytes).foldl step {}).finish

-- ============================================================= decoding

/-- What can be wrong with comma-separated text: bytes that are not UTF-8. -/
inductive Fault where
  /-- In the header. -/
  | header
  /-- In a record, counted from 0 after the header. -/
  | record (index : Nat)
  deriving DecidableEq, Repr

/-- The fields of a record as text, unless one of them is not UTF-8. -/
def decodeRecord? (record : List (List UInt8)) : Option (List String) :=
  record.mapM Storage.text?

/-- The records as text, or the place of the first one that is not. -/
def decodeAll (index : Nat) : List (List (List UInt8)) → Except Fault (List (List String))
  | [] => .ok []
  | record :: rest =>
    match decodeRecord? record with
    | none => .error (.record index)
    | some fields => (decodeAll (index + 1) rest).map (fields :: ·)

-- =============================================================== tables

/-- The row of a record: the header names its fields by position. A record that is too short is
filled up with empty cells, and what goes beyond the header is dropped. -/
def rowOf (header record : List String) : Row :=
  Row.ofFields (header.zipIdx.map fun (name, i) => (name, record.getD i ""))

/-- The table of a header and its records. A table without rows has no columns either. -/
def tableOf (header : List String) (records : List (List String)) : Table where
  columns := if records.isEmpty then [] else header
  rows := records.map (rowOf header)

/-- Reads a table: the first record is the header. -/
def read (bytes : List UInt8) : Except Fault Table :=
  match recordsOf bytes with
  | [] => .ok (tableOf [] [])
  | first :: rest =>
    match decodeRecord? first with
    | none => .error .header
    | some header => (decodeAll 0 rest).map (tableOf header)

end TableCalc.Csv
