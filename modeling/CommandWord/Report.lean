import CommandWord.Codec.Fingerprint

/-!
The report on a compilation: one row per command with its header and sizes, and figures over
the whole. It has two renderings, lines of keys and values for programs and a table for people.
Neither shows the mask.
-/

namespace CommandWord

open Digits Lines

structure ReportRow where
  name : String
  headerBits : String
  headerLength : Nat
  payloadBits : Nat
  deriving DecidableEq

structure Report where
  totalBits : Nat
  layout : Layout
  fingerprint : UInt32
  rows : List ReportRow
  deriving DecidableEq

namespace ReportRow

def ofEntry (entry : Entry) : ReportRow where
  name := entry.command.name
  headerBits := entry.header.bits
  headerLength := entry.header.length
  payloadBits := entry.command.payloadBits

/-- How many messages the command has, or the largest word where that is smaller. -/
def capacity (row : ReportRow) : UInt64 :=
  if row.payloadBits < 64 then UInt64.ofNat (1 <<< row.payloadBits) else lowMask 64

def keyLine (row : ReportRow) : String :=
  s!"command.{row.name}=header:{row.headerBits} header_len:{row.headerLength} " ++
    s!"payload_bits:{row.payloadBits} capacity:{row.capacity}"

end ReportRow

namespace Report

def ofCodec (codec : Codec) : Report where
  totalBits := codec.totalBits
  layout := codec.layout
  fingerprint := codec.fingerprint
  rows := codec.entries.map ReportRow.ofEntry

def codeSpaceUsed (report : Report) : Float :=
  report.rows.foldl (fun sum row => sum + Float.scaleB 1.0 (-(row.headerLength : Int))) 0.0

/-- How many bits no command uses, counted in 32 bits. There are some only in the uniform
layout. -/
def unusedBits (report : Report) : UInt32 :=
  report.rows.foldl (fun sum row =>
    sum + UInt32.ofNat (report.totalBits - row.headerLength - row.payloadBits)) 0

def fingerprintText (report : Report) : String :=
  paddedHex 8 report.fingerprint.toNat

def exportText (report : Report) : String :=
  unlines <| [
    s!"total_bits={report.totalBits}",
    s!"layout={report.layout.name}",
    s!"fingerprint={report.fingerprintText}",
    s!"commands={report.rows.length}",
    s!"code_space_used={Decimal.fixed 6 report.codeSpaceUsed}"] ++
    report.rows.map ReportRow.keyLine

def nameWidth (report : Report) : Nat :=
  (report.rows.map (·.name.utf8ByteSize)).max?.getD 0

def tableLine (nameWidth : Nat) (name headerLength payloadBits headerBits : String) : String :=
  alignLeft nameWidth name ++ "  " ++ alignRight 6 headerLength ++ "  " ++
    alignRight 7 payloadBits ++ "  " ++ headerBits

def summary (report : Report) : String :=
  unlines <| [
    "=== Codec Layout ===",
    s!"Total bits: {report.totalBits}",
    s!"Header layout: {report.layout.name}",
    s!"Fingerprint: {report.fingerprintText}",
    "",
    tableLine report.nameWidth "command" "hdr" "payload" "header"] ++
    report.rows.map (fun row =>
      tableLine report.nameWidth row.name (toString row.headerLength)
        (toString row.payloadBits) row.headerBits) ++ [
    "",
    s!"Code space used: {Decimal.fixed 4 (report.codeSpaceUsed * 100.0)}%"] ++
    if report.unusedBits = 0 then [] else [s!"Unused payload bits: {report.unusedBits}"]

end Report

end CommandWord
